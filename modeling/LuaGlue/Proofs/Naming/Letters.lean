import LuaGlue.Proofs.CType.RoundTrip
import LuaGlue.Proofs.Naming.Registered
import Mathlib

/-!
# Cases of names

The names of functions, of types and of constants are told apart by the cases of their ASCII letters: a
name in snake case has no capital in it, nor has a suffix (`snakeCase_noCapital`, `suffixOf_noCapital`), a
type's name does not begin with a small letter (`typeName_head`), and a constant's has none
(`constName_noSmall`). So a function can only meet a type when its name does not begin with an ASCII letter.
-/

set_option autoImplicit false

namespace LuaGlue

open Text

/-! ## Letters -/

theorem isUpper_iff {c : Char} : c.isUpper = true ↔ 0x41 ≤ c.toNat ∧ c.toNat ≤ 0x5A := by
  simp [Char.isUpper, UInt32.le_iff_toNat_le]

theorem isLower_iff {c : Char} : c.isLower = true ↔ 0x61 ≤ c.toNat ∧ c.toNat ≤ 0x7A := by
  simp [Char.isLower, UInt32.le_iff_toNat_le]

/-- A letter's other form has what its spellings have and what lies at the distances. -/
theorem mem_otherForm {P : Char → Prop} {spellings : List (Nat × List Nat)}
    {shifts : List (Nat × Nat × Nat × Int)} {c : Char}
    (hspellings : ∀ e ∈ spellings, ∀ n ∈ e.2, P (Char.ofNat n))
    (hshifts : ∀ e ∈ shifts, ∀ n : Nat, e.1 ≤ n → n ≤ e.2.1 → P (Char.ofNat (n + e.2.2.2).toNat))
    (hself : P c) : ∀ d ∈ otherForm spellings shifts c, P d := by
  intro d hd
  unfold otherForm at hd
  split at hd
  · rename_i letters hlookup
    obtain ⟨n, hn, rfl⟩ := List.mem_map.mp hd
    obtain ⟨before, after, rfl, -⟩ := List.lookup_eq_some_iff.mp hlookup
    exact hspellings (c.toNat, letters) (by simp) n hn
  · split at hd
    · rename_i first last step distance hfind
      rw [List.mem_singleton.mp hd]
      have hrun := List.find?_some hfind
      simp only [inRun, Bool.and_eq_true, decide_eq_true_eq] at hrun
      exact hshifts _ (List.mem_of_find?_eq_some hfind) c.toNat hrun.1.1 hrun.1.2
    · rwa [List.mem_singleton.mp hd]

/-- A shifted letter beyond the ASCII capitals is none of them. -/
theorem small_noCapital (c : Char) : ∀ d ∈ small c, d.isUpper = false := by
  unfold small
  split
  · intro d hd
    rw [List.mem_singleton.mp hd]
    exact Char.isUpper_toLower_eq_false c
  · rename_i hc
    have hbeyond : ∀ e ∈ smallShifts, (0x5B : Int) ≤ e.1 + e.2.2.2 := by decide +kernel
    refine mem_otherForm (by decide) (fun e he n hn _ => ?_) ?_
    · rw [← Bool.not_eq_true, isUpper_iff]
      have := hbeyond e he
      rw [Char.toNat_ofNat]
      split <;> omega
    · rw [← Bool.not_eq_true, isUpper_iff]
      omega

theorem capital_noSmall (c : Char) : ∀ d ∈ capital c, d.isLower = false := by
  unfold capital
  split
  · intro d hd
    rw [List.mem_singleton.mp hd]
    exact Char.isLower_toUpper_eq_false c
  · rename_i hc
    have hbeyond : ∀ e ∈ capitalShifts,
        (e.2.1 : Int) + e.2.2.2 ≤ 0x60 ∨ (0x7B : Int) ≤ e.1 + e.2.2.2 := by
      decide +kernel
    refine mem_otherForm (by decide) (fun e he n hn hn' => ?_) ?_
    · rw [← Bool.not_eq_true, isLower_iff]
      have := hbeyond e he
      rw [Char.toNat_ofNat]
      split <;> omega
    · rw [← Bool.not_eq_true, isLower_iff]
      omega

theorem capital_ne_nil (c : Char) : capital c ≠ [] := by
  unfold capital
  split
  · simp
  · unfold otherForm
    split
    · rename_i letters hlookup
      have hspellings : ∀ e ∈ capitalSpellings, e.2 ≠ [] := by decide
      obtain ⟨before, after, heq, -⟩ := List.lookup_eq_some_iff.mp hlookup
      have hmem : (c.toNat, letters) ∈ capitalSpellings := by rw [heq]; simp
      simpa using hspellings _ hmem
    · split <;> simp

/-! ## Functions -/

/-- A text without ASCII capitals. -/
def NoCapital (s : String) : Prop := ∀ c ∈ s.toList, c.isUpper = false

theorem NoCapital.append {s t : String} (hs : NoCapital s) (ht : NoCapital t) :
    NoCapital (s ++ t) := by
  intro c hc
  rw [String.toList_append] at hc
  exact (List.mem_append.mp hc).elim (hs c) (ht c)

theorem mem_of_mem_dropEndWhile {p : Char → Bool} {c : Char} :
    ∀ {cs : List Char}, c ∈ dropEndWhile p cs → c ∈ cs := by
  intro cs
  induction cs with
  | nil => exact fun h => h
  | cons d rest ih =>
    intro h
    rw [dropEndWhile] at h
    split at h
    · split at h
      · exact absurd h List.not_mem_nil
      · exact List.mem_cons.mpr (.inl (List.mem_singleton.mp h))
    · exact (List.mem_cons.mp h).elim (fun h => h ▸ List.mem_cons_self)
        fun h => List.mem_cons_of_mem _ (ih h)

theorem wordGap_noCapital (last : Option Char) : ∀ d ∈ wordGap last, d.isUpper = false := by
  intro d hd
  have hunderscore : d = '_' := by
    unfold wordGap at hd
    split at hd
    · exact absurd hd List.not_mem_nil
    · split at hd
      · exact absurd hd List.not_mem_nil
      · exact List.mem_singleton.mp hd
  rw [hunderscore]
  rfl

theorem snakePiece_noCapital (prev last : Option Char) (c : Char) (next : List Char) :
    ∀ d ∈ snakePiece prev last c next, d.isUpper = false := by
  unfold snakePiece
  split
  · exact wordGap_noCapital last
  · split
    · refine List.forall_mem_append.mpr ⟨?_, small_noCapital c⟩
      split
      · exact wordGap_noCapital last
      · simp
    · rename_i hcapital
      intro d hd
      rw [List.mem_singleton.mp hd]
      -- what is no capital of any script is no ASCII capital
      unfold isCapital at hcapital
      split at hcapital
      · simpa using hcapital
      · rw [← Bool.not_eq_true, isUpper_iff]
        omega

theorem snakeFrom_noCapital : ∀ (cs : List Char) (prev last : Option Char),
    ∀ d ∈ snakeFrom prev last cs, d.isUpper = false := by
  intro cs
  induction cs with
  | nil => intro prev last d hd; exact absurd hd List.not_mem_nil
  | cons c rest ih =>
    intro prev last
    exact List.forall_mem_append.mpr ⟨snakePiece_noCapital _ _ _ _, ih _ _⟩

theorem snakeCase_noCapital (name : String) : NoCapital (snakeCase name) := by
  intro c hc
  rw [snakeCase, String.toList_ofList] at hc
  exact snakeFrom_noCapital _ _ _ c (mem_of_mem_dropEndWhile hc)

theorem functionName_noCapital (n : Naming) (native : String) : NoCapital (n.functionName native) := by
  intro c hc
  rw [Naming.functionName, String.toList_ofList] at hc
  exact snakeFrom_noCapital _ _ _ c (mem_of_mem_dropEndWhile hc)

theorem toString_noCapital (k : Nat) : NoCapital (toString k) := by
  intro c hc
  have hdigit := isDigit_of_mem_toString hc
  rw [← Bool.not_eq_true, isUpper_iff]
  have := Char.isDigit_iff_toNat.mp hdigit
  have : '9'.toNat = 0x39 := rfl
  omega

theorem noCapital_of_all {s : String} (h : (s.toList.all fun c => !c.isUpper) = true) :
    NoCapital s := by
  intro c hc
  simpa using List.all_eq_true.mp h c hc

theorem categoryToken_noCapital (n : Naming) : ∀ category, NoCapital (categoryToken n category)
  | .void | .bool | .float .single | .float .double | .cstring | .handle _ | .callback ..
  | .unknown => by
    unfold categoryToken
    exact noCapital_of_all (by decide)
  | .integer k => by
    refine NoCapital.append ?_ ?_
    · split <;> exact noCapital_of_all rfl
    · split
      · exact noCapital_of_all rfl
      · exact toString_noCapital k.bits
  | .structValue .. | .enum _ => snakeCase_noCapital _
  | .structPointer .. => .append (noCapital_of_all rfl) (snakeCase_noCapital _)
  | .pointer pointee _ => .append (noCapital_of_all rfl) (categoryToken_noCapital n pointee)
  | .fixedArray elem size => .append (categoryToken_noCapital n elem) (toString_noCapital size)

theorem suffixOf_noCapital (n : Naming) (categories : List Category) :
    NoCapital (suffixOf n categories) := by
  have joined : ∀ categories : List Category,
      NoCapital (String.join (categories.map fun c => "_" ++ categoryToken n c)) := by
    intro categories
    induction categories with
    | nil => intro c hc; simp at hc
    | cons first rest ih =>
      rw [List.map_cons, String.join_cons]
      exact .append (.append (noCapital_of_all rfl) (categoryToken_noCapital n first)) ih
  cases categories with
  | nil => exact (noCapital_of_all (by decide) : NoCapital "_void")
  | cons first rest => exact joined (first :: rest)

/-- A name is registered without capitals if it has none. -/
theorem registeredNames_noCapital {n : Naming} {script key : String} (hscript : NoCapital script)
    (hkey : key ∈ n.registeredNames script) : NoCapital key := by
  rcases mem_registeredNames hkey with rfl | ⟨-, rfl⟩
  · exact hscript
  · exact hscript.append (noCapital_of_all rfl)

/-! ## Types and constants -/

theorem pascalCase_head (cs : List Char) : ∀ c ∈ (pascalCase cs).head?, c.isLower = false := by
  intro c hc
  unfold pascalCase nameParts at hc
  generalize splitAtChar '_' cs = parts at hc
  induction parts with
  | nil => simp at hc
  | cons part rest ih =>
    cases part with
    | nil => exact ih (by simpa using hc)
    | cons first others =>
      obtain ⟨d, ds, hcapital⟩ := List.exists_cons_of_ne_nil (capital_ne_nil first)
      have hd : d = c := by simpa [hcapital] using hc
      exact hd ▸ capital_noSmall first d (by simp [hcapital])

/-- A type's name does not begin with an ASCII small letter. -/
theorem typeName_head (n : Naming) (native : String) :
    ∀ c ∈ (n.typeName native).toList.head?, c.isLower = false := by
  unfold Naming.typeName
  dsimp only
  split
  · rw [String.toList_ofList]
    exact pascalCase_head _
  · split
    · rw [String.toList_ofList]
      exact pascalCase_head _
    · rw [String.toList_ofList]
      exact pascalCase_head _

theorem ne_mark_of_mem_splitAtChar {mark c : Char} : ∀ {cs part : List Char},
    part ∈ splitAtChar mark cs → c ∈ part → c ≠ mark := by
  intro cs
  induction cs with
  | nil =>
    intro part hpart hc
    rw [List.mem_singleton.mp hpart] at hc
    exact absurd hc List.not_mem_nil
  | cons d rest ih =>
    intro part hpart hc
    rw [splitAtChar] at hpart
    split at hpart
    · rcases List.mem_cons.mp hpart with rfl | hpart
      · exact absurd hc List.not_mem_nil
      · exact ih hpart hc
    · rename_i hd
      split at hpart
      · rw [List.mem_singleton.mp hpart] at hc
        rwa [List.mem_singleton.mp hc]
      · rename_i first others hsplit
        rcases List.mem_cons.mp hpart with rfl | hpart
        · rcases List.mem_cons.mp hc with rfl | hc
          · exact hd
          · exact ih (hsplit ▸ List.mem_cons_self) hc
        · exact ih (hsplit ▸ List.mem_cons_of_mem first hpart) hc

/-- Other letters have no underscore among their capitals. -/
theorem capital_noUnderscore {c : Char} (hc : c ≠ '_') : ∀ d ∈ capital c, d ≠ '_' := by
  unfold capital
  split
  · rename_i hascii
    have table : ∀ n < 0x80, Char.ofNat n ≠ '_' → (Char.ofNat n).toUpper ≠ '_' := by decide +kernel
    have h := table c.toNat hascii
    rw [Char.ofNat_toNat] at h
    intro d hd
    rw [List.mem_singleton.mp hd]
    exact h hc
  · have hbeside : ∀ e ∈ capitalShifts,
        (e.2.1 : Int) + e.2.2.2 ≤ 0x5E ∨ (0x60 : Int) ≤ e.1 + e.2.2.2 := by decide +kernel
    refine mem_otherForm (by decide +kernel) (fun e he n hn hn' heq => ?_) hc
    have := hbeside e he
    have hvalue := congrArg Char.toNat heq
    rw [Char.toNat_ofNat, (by rfl : '_'.toNat = 0x5F)] at hvalue
    split at hvalue <;> omega

/-- A type's name has no underscores: its words stand side by side. -/
theorem pascalCase_noUnderscore (cs : List Char) : '_' ∉ pascalCase cs := by
  intro h
  obtain ⟨part, hpart, hmem⟩ := List.mem_flatMap.mp h
  have hin {c : Char} (hc : c ∈ part) : c ≠ '_' :=
    ne_mark_of_mem_splitAtChar (List.mem_filter.mp hpart).1 hc
  cases part with
  | nil => exact absurd hmem List.not_mem_nil
  | cons first rest =>
    rcases List.mem_append.mp hmem with hmem | hmem
    · exact capital_noUnderscore (hin List.mem_cons_self) _ hmem rfl
    · exact hin (List.mem_cons_of_mem first hmem) rfl

theorem typeName_noUnderscore (n : Naming) (native : String) :
    '_' ∉ (n.typeName native).toList := by
  unfold Naming.typeName
  dsimp only
  split
  · rw [String.toList_ofList]
    exact pascalCase_noUnderscore _
  · split
    · rw [String.toList_ofList]
      exact pascalCase_noUnderscore _
    · rw [String.toList_ofList]
      exact pascalCase_noUnderscore _

theorem constName_noSmall (n : Naming) (item : String) :
    ∀ c ∈ (n.constName item).toList, c.isLower = false := by
  intro c hc
  rw [Naming.constName, String.toList_ofList] at hc
  obtain ⟨d, -, rfl⟩ := List.mem_map.mp hc
  exact Char.isLower_toUpper_eq_false d

/-! ## Functions beside types and constants -/

/-- The name begins with an ASCII letter. -/
def beginsWithLetter (name : String) : Bool := name.toList.head?.any Char.isAlpha

/-- The name has an ASCII letter in it. -/
def hasLetter (name : String) : Bool := name.toList.any Char.isAlpha

theorem ne_typeName {key : String} (hkey : NoCapital key) (hletter : beginsWithLetter key = true)
    (n : Naming) (native : String) : key ≠ n.typeName native := by
  rintro rfl
  obtain ⟨c, hc, halpha⟩ := (Option.any_eq_true _ _).mp hletter
  have hlower := typeName_head n native c hc
  have hupper := hkey c (List.mem_of_mem_head? hc)
  rw [Char.isAlpha, hlower, hupper] at halpha
  cases halpha

theorem ne_constName {key : String} (hkey : NoCapital key) (hletter : hasLetter key = true)
    (n : Naming) (item : String) : key ≠ n.constName item := by
  rintro rfl
  obtain ⟨c, hc, halpha⟩ := List.any_eq_true.mp hletter
  rw [Char.isAlpha, constName_noSmall n item c hc, hkey c hc] at halpha
  cases halpha

end LuaGlue
