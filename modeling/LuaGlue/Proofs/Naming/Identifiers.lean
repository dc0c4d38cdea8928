import LuaGlue.Proofs.Naming.Alphabet
import LuaGlue.Stub.Render

/-!
# Names that a script can write

A script can write an identifier that is no reserved word. If native names are identifiers, then what script
names are made of is never in question, since the characters of identifiers are a `NameAlphabet`. What is in
question is how they begin: a stem that is taken off may be followed by a digit. So each rule of naming is
traced to the character that its name begins with. Words in snake and in Pascal case begin where
the native name does, underscores aside (`beginsName_of_lead`).

Of the rules only that for types looks at how the name would begin, and falls back on the whole native
name; only functions and parameters are kept from being reserved words; types and constants cannot be, by
their capitals.
-/

set_option autoImplicit false

namespace LuaGlue

open Text

/-! ## Identifiers -/

/-- A letter, a digit or an underscore. -/
def isNameChar (c : Char) : Bool := c.isAlphanum || c == '_'

/-- A letter or an underscore, followed by letters, digits and underscores. -/
def isIdentifier (name : String) : Bool :=
  match name.toList with
  | [] => false
  | c :: rest => (c.isAlpha || c == '_') && rest.all isNameChar

/-- An identifier that is no reserved word. -/
def isScriptName (name : String) : Bool := isIdentifier name && !isScriptKeyword name

/-- There is a first character, and it is no digit. -/
def beginsName : List Char → Bool
  | [] => false
  | c :: _ => !c.isDigit

/-- The characters of identifiers. -/
def NameChar (c : Char) : Prop := isNameChar c = true

theorem isIdentifier_iff {name : String} :
    isIdentifier name = true ↔ beginsName name.toList = true ∧ Over NameChar name := by
  unfold isIdentifier Over
  cases name.toList with
  | nil => simp [beginsName]
  | cons c rest =>
    have hfirst : (c.isAlpha || c == '_') = true ↔ c.isDigit = false ∧ NameChar c := by
      have hdigit : c.isAlpha = true → c.isDigit = false := by
        intro halpha
        rw [← Bool.not_eq_true, Char.isDigit_iff_toNat]
        simp only [Char.isAlpha, Bool.or_eq_true, isUpper_iff, isLower_iff] at halpha
        have : '9'.toNat = 0x39 := rfl
        omega
      have hunderscore : c = '_' → c.isDigit = false := by
        rintro rfl
        rfl
      simp only [NameChar, isNameChar, Char.isAlphanum, Bool.or_eq_true, beq_iff_eq]
      grind
    simp [beginsName, hfirst, NameChar, and_assoc]

section

variable {c : Char}

theorem NameChar.ascii (hc : NameChar c) : c.toNat < 0x80 := (plain_word hc).1

/-- The other case of a character is of the same sort: found by looking at all of them. -/
theorem NameChar.cased (hc : NameChar c) :
    (NameChar c.toLower ∧ c.toLower.isDigit = c.isDigit ∧ (c.toLower = '_' → c = '_')) ∧
      NameChar c.toUpper ∧ c.toUpper.isDigit = c.isDigit := by
  have table : ∀ n < 0x80, isNameChar (Char.ofNat n) = true →
      (isNameChar (Char.ofNat n).toLower = true ∧
          (Char.ofNat n).toLower.isDigit = (Char.ofNat n).isDigit ∧
          ((Char.ofNat n).toLower = '_' → Char.ofNat n = '_')) ∧
        isNameChar (Char.ofNat n).toUpper = true ∧
          (Char.ofNat n).toUpper.isDigit = (Char.ofNat n).isDigit := by
    decide +kernel
  have h := table c.toNat hc.ascii
  rw [Char.ofNat_toNat] at h
  exact h hc

theorem NameChar.small_eq (hc : NameChar c) : small c = [c.toLower] := if_pos hc.ascii

theorem NameChar.capital_eq (hc : NameChar c) : capital c = [c.toUpper] := if_pos hc.ascii

end

instance : NameAlphabet NameChar where
  word _ h := h
  small c hc d hd := by
    rw [hc.small_eq, List.mem_singleton] at hd
    exact hd ▸ hc.cased.1.1
  capital c hc d hd := by
    rw [hc.capital_eq, List.mem_singleton] at hd
    exact hd ▸ hc.cased.2.1

/-! ## Reserved words -/

/-- Reserved words are identifiers that begin with a small letter. -/
theorem keyword_identifier {word : String} (h : isScriptKeyword word = true) :
    isIdentifier word = true ∧ ∃ c, word.toList.head? = some c ∧ c.isLower = true := by
  have all : ∀ word ∈ scriptKeywords,
      isIdentifier word = true ∧ word.toList.head?.any Char.isLower = true := by
    decide +kernel
  obtain ⟨hidentifier, hlower⟩ := all word (List.contains_iff_mem.mp h)
  exact ⟨hidentifier, (Option.any_eq_true _ _).mp hlower⟩

theorem not_keyword_of_head {name : String} (h : ∀ c ∈ name.toList.head?, c.isLower = false) :
    isScriptKeyword name = false := by
  refine Bool.eq_false_iff.mpr fun hkeyword => ?_
  obtain ⟨-, c, hc, hlower⟩ := keyword_identifier hkeyword
  rw [h c hc] at hlower
  cases hlower

theorem not_keyword_underscore (name : String) : isScriptKeyword (name ++ "_") = false :=
  Bool.eq_false_iff.mpr fun hkeyword => underscore_not_mem_keyword hkeyword (by simp)

/-- An argument's name can be written if it is an identifier. -/
theorem argName_valid (name : String) : isScriptName (argName name) = isIdentifier name := by
  unfold isScriptName argName
  cases hkeyword : isScriptKeyword name with
  | false => simp [hkeyword]
  | true =>
    obtain ⟨hidentifier, c, hc, -⟩ := keyword_identifier hkeyword
    obtain ⟨hbegins, hover⟩ := isIdentifier_iff.mp hidentifier
    have hrenamed : isIdentifier (name ++ "_") = true := by
      refine isIdentifier_iff.mpr ⟨?_, over_append.mpr ⟨hover, over_word (by decide)⟩⟩
      rw [String.toList_append]
      obtain ⟨rest, hrest⟩ := List.head?_eq_some_iff.mp hc
      rw [hrest] at hbegins ⊢
      exact hbegins
    rw [if_pos rfl, not_keyword_underscore, hrenamed, hidentifier]
    rfl

/-- Of the names that a function is registered under, a script can write one: the name that an argument
would be given. -/
theorem usable_registeredNames (n : Naming) (script : String) :
    (n.registeredNames script).filter (!isScriptKeyword ·) = [argName script] := by
  have hrenamed := not_keyword_underscore script
  unfold Naming.registeredNames argName
  cases hkeyword : isScriptKeyword script with
  | false => simp [hkeyword]
  | true => cases n.keywordPolicy <;> simp [hkeyword, hrenamed]

/-! ## First characters -/

theorem beginsName_asciiCapitals {cs : List Char} (h : ∀ c ∈ cs, NameChar c) :
    beginsName (asciiCapitals cs) = beginsName cs := by
  cases cs with
  | nil => rfl
  | cons c rest => exact congrArg (!·) (h c List.mem_cons_self).cased.2.2

/-- What passes over leading underscores, and then keeps digits digits and others others, begins like what
it is made from. -/
theorem beginsName_of_lead {f : List Char → List Char} (hnil : f [] = [])
    (hskip : ∀ cs, f ('_' :: cs) = f cs)
    (hlead : ∀ c cs, NameChar c → c ≠ '_' → ∃ d ds, f (c :: cs) = d :: ds ∧ d.isDigit = c.isDigit)
    {cs : List Char} (h : ∀ c ∈ cs, NameChar c) (tail : List Char) :
    beginsName (f cs ++ tail) = beginsName (cs.dropWhile (· == '_') ++ tail) := by
  induction cs with
  | nil => rw [hnil, List.dropWhile_nil]
  | cons c rest ih =>
    obtain ⟨hc, hrest⟩ := List.forall_mem_cons.mp h
    by_cases hunderscore : c = '_'
    · subst hunderscore
      rw [hskip, List.dropWhile_cons_of_pos (by simp)]
      exact ih hrest
    · obtain ⟨d, ds, heq, hdigit⟩ := hlead c rest hc hunderscore
      rw [heq, List.dropWhile_cons_of_neg (by simpa using hunderscore)]
      exact congrArg (!·) hdigit

/-- After an underscore a capital begins no word, just as at the beginning. -/
theorem snakeFrom_underscore (cs : List Char) :
    snakeFrom none none ('_' :: cs) = snakeFrom none none cs := by
  have hword (next : List Char) : beginsWord (some '_') next = beginsWord none next := by
    have hsmall : isSmall '_' = false := by decide
    have hcapital : isCapital '_' = false := by decide
    simp [beginsWord, hsmall, hcapital]
  cases cs with
  | nil => rfl
  | cons c rest =>
    change snakeFrom (some '_') none (c :: rest) = snakeFrom none none (c :: rest)
    simp only [snakeFrom, snakePiece, hword]

theorem snakeChars_underscore (cs : List Char) : snakeChars ('_' :: cs) = snakeChars cs := by
  rw [snakeChars, snakeFrom_underscore, snakeChars]

theorem dropEndWhile_cons {p : Char → Bool} {c : Char} (hc : p c = false) (cs : List Char) :
    dropEndWhile p (c :: cs) = c :: dropEndWhile p cs := by
  rw [dropEndWhile]
  split
  · rename_i hnil
    rw [if_neg (by simp [hc]), hnil]
  · rfl

theorem snakeChars_lead (c : Char) (cs : List Char) (hc : NameChar c) (hunderscore : c ≠ '_') :
    ∃ d ds, snakeChars (c :: cs) = d :: ds ∧ d.isDigit = c.isDigit := by
  obtain ⟨d, hpiece, hd, hdigit⟩ : ∃ d, snakePiece none none c cs = [d] ∧ d ≠ '_' ∧
      d.isDigit = c.isDigit := by
    unfold snakePiece
    rw [if_neg (by simpa using hunderscore)]
    split
    · exact ⟨c.toLower, hc.small_eq, fun h => hunderscore (hc.cased.1.2.2 h), hc.cased.1.2.1⟩
    · exact ⟨c, rfl, hunderscore, rfl⟩
  rw [snakeChars, snakeFrom, hpiece]
  exact ⟨d, _, dropEndWhile_cons (by simpa using hd) _, hdigit⟩

/-- Snake case begins where the name does. -/
theorem beginsName_snakeChars {cs : List Char} (h : ∀ c ∈ cs, NameChar c) (tail : List Char) :
    beginsName (snakeChars cs ++ tail) = beginsName (cs.dropWhile (· == '_') ++ tail) :=
  beginsName_of_lead rfl snakeChars_underscore snakeChars_lead h tail

theorem pascalCase_underscore (cs : List Char) : pascalCase ('_' :: cs) = pascalCase cs := rfl

theorem pascalCase_lead (c : Char) (cs : List Char) (hc : NameChar c) (hunderscore : c ≠ '_') :
    ∃ d ds, pascalCase (c :: cs) = d :: ds ∧ d.isDigit = c.isDigit := by
  obtain ⟨part, parts, hsplit⟩ : ∃ part parts, splitAtChar '_' (c :: cs) = (c :: part) :: parts := by
    rw [splitAtChar, if_neg hunderscore]
    split
    · exact ⟨[], [], rfl⟩
    · exact ⟨_, _, rfl⟩
  rw [pascalCase, nameParts, hsplit, List.filter_cons_of_pos rfl, List.flatMap_cons]
  dsimp only
  rw [hc.capital_eq]
  exact ⟨c.toUpper, _, rfl, hc.cased.2.2⟩

/-- Pascal case begins where the name does. -/
theorem beginsName_pascalCase {cs : List Char} (h : ∀ c ∈ cs, NameChar c) :
    beginsName (pascalCase cs) = beginsName (cs.dropWhile (· == '_')) := by
  have hlead := beginsName_of_lead rfl pascalCase_underscore pascalCase_lead h []
  rwa [List.append_nil, List.append_nil] at hlead

/-! ## When a script can write a name -/

namespace Naming

variable (n : Naming)

/-- What is left of a type's name does not begin with a digit, underscores aside, or else the whole name
does not. -/
def typeFits (native : String) : Bool :=
  beginsName ((bareTypeName (n.stripType native.toList)).dropWhile (· == '_')) ||
    beginsName (native.toList.dropWhile (· == '_'))

/-- What is left of a member's name does not begin with a digit, and is no reserved word. -/
def memberFits (enum item : String) : Bool :=
  beginsName (n.stripMember enum item.toList) && !isScriptKeyword (n.memberName enum item)

/-- What is left of a constant's name does not begin with a digit. -/
def constFits (item : String) : Bool := beginsName (n.stripConst item.toList)

/-- What is left of a function's name, underscores aside, and the suffix after it do not begin with a
digit, and the suffix is made of letters, digits and underscores. -/
def functionFits (native suffix : String) : Bool :=
  beginsName ((dropStem n.stem.toList native.toList).dropWhile (· == '_') ++ suffix.toList) &&
    suffix.toList.all isNameChar

end Naming

section

variable {n : Naming} {native : String}

theorem isScriptName_of_head {name : String} (hover : Over NameChar name)
    (hhead : ∀ c ∈ name.toList.head?, c.isLower = false) :
    isScriptName name = beginsName name.toList := by
  rw [isScriptName, not_keyword_of_head hhead, Bool.not_false, Bool.and_true, Bool.eq_iff_iff,
    isIdentifier_iff, and_iff_left hover]

theorem typeName_eq (n : Naming) (native : String) :
    (n.typeName native).toList =
      if beginsName (pascalCase (bareTypeName (n.stripType native.toList)))
      then pascalCase (bareTypeName (n.stripType native.toList)) else pascalCase native.toList := by
  unfold Naming.typeName
  dsimp only
  cases pascalCase (bareTypeName (n.stripType native.toList)) with
  | nil => exact String.toList_ofList
  | cons c rest => cases hdigit : c.isDigit <;> simp [beginsName, hdigit]

theorem typeName_valid (hnative : Over NameChar native) :
    isScriptName (n.typeName native) = n.typeFits native := by
  have hstripped : ∀ c ∈ bareTypeName (n.stripType native.toList), NameChar c := fun c hc =>
    hnative c (mem_of_mem_stripType (mem_of_mem_bareTypeName hc))
  have hbegins := beginsName_pascalCase hstripped
  have hwhole := beginsName_pascalCase hnative
  rw [isScriptName_of_head (typeName_over hnative) (typeName_head n native), typeName_eq,
    Naming.typeFits, ← hbegins, ← hwhole]
  split
  · rename_i hfits
    rw [hfits, Bool.true_or]
  · rename_i hfalls
    rw [Bool.eq_false_iff.mpr hfalls, Bool.false_or]

theorem memberName_valid {enum item : String} (hitem : Over NameChar item) :
    isScriptName (n.memberName enum item) = n.memberFits enum item := by
  have hshort : ∀ c ∈ n.stripMember enum item.toList, NameChar c := fun c hc =>
    hitem c (mem_of_mem_stripMember hc)
  have hbegins : beginsName (n.memberName enum item).toList =
      beginsName (n.stripMember enum item.toList) := by
    unfold Naming.memberName
    dsimp only
    rw [String.toList_ofList]
    split
    · exact beginsName_asciiCapitals hshort
    · rfl
  rw [isScriptName, Naming.memberFits, ← hbegins, Bool.eq_iff_iff]
  simp only [Bool.and_eq_true, isIdentifier_iff, and_iff_left (memberName_over enum hitem)]

theorem constName_valid {item : String} (hitem : Over NameChar item) :
    isScriptName (n.constName item) = n.constFits item := by
  have hstripped : ∀ c ∈ n.stripConst item.toList, NameChar c := fun c hc =>
    hitem c (mem_of_mem_stripConst hc)
  have hhead : ∀ c ∈ (n.constName item).toList.head?, c.isLower = false := fun c hc =>
    constName_noSmall n item c (List.mem_of_mem_head? hc)
  rw [isScriptName_of_head (constName_over hitem) hhead, constName_eq,
    beginsName_asciiCapitals hstripped, Naming.constFits]

theorem functionName_valid (hnative : Over NameChar native) (suffix : String) :
    isScriptName (argName (n.functionName native ++ suffix)) = n.functionFits native suffix := by
  have hstripped : ∀ c ∈ dropStem n.stem.toList native.toList, NameChar c := fun c hc =>
    hnative c (mem_of_mem_dropStem hc)
  rw [argName_valid, Bool.eq_iff_iff, isIdentifier_iff, String.toList_append, over_append,
    and_iff_right (functionName_over hnative), Naming.functionName, String.toList_ofList,
    beginsName_snakeChars hstripped, Naming.functionFits, Bool.and_eq_true, List.all_eq_true]
  rfl

end

end LuaGlue
