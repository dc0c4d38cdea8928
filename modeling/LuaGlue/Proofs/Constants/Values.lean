import LuaGlue.Constants
import LuaGlue.Proofs.CType.RoundTrip
import LuaGlue.Proofs.EnumValue.Literals
import Mathlib.Data.List.SplitBy

/-!
# What the text of a value denotes

A constant is written down twice: as a C expression, which the registrar pushes, and as a numeral in the
stub file. Both are read here as their languages read them. C gives a constant the first type of a list
that has its value, computes in that type, and leaves what a signed type cannot hold undefined
(`cInteger?`); a script takes a decimal numeral for an integer if it fits a word, and for a float if it
does not, before a sign is applied to it (`scriptNumber?`).

The expression denotes the value as a script's integer holds it, for every value that passes the check
(`integerLiteral_denotes`). The numeral denotes an integer at all only for values that fit a word, and not
for the least one of these (`numeral_denotes`).
-/

set_option autoImplicit false

namespace LuaGlue

open Text

/-- An integer as a script holds it: reduced to a signed word. -/
def asWord (v : Int) : Int := v.bmod (2 ^ 64)

theorem isWord_iff {v : Int} : isWord v = true ↔ -2 ^ 63 ≤ v ∧ v < 2 ^ 63 := by
  have hbound : wordBound = 2 ^ 63 := by decide
  rw [isWord, hbound, Bool.and_eq_true, decide_eq_true_iff, decide_eq_true_iff]

theorem asWord_of_isWord {v : Int} (h : isWord v = true) : asWord v = v := by
  rw [isWord_iff] at h
  exact Int.bmod_eq_of_le (by omega) (by omega)

theorem asWord_asWord (v : Int) : asWord (asWord v) = asWord v := by
  unfold asWord
  exact Int.bmod_bmod

/-! ## Expressions in C -/

/-- The types of constants, and of what is computed from them. -/
inductive CIntegerType where
  | int
  | longLong
  | unsignedLongLong
  deriving DecidableEq, Repr

namespace CIntegerType

def holds (v : Int) : CIntegerType → Bool
  | int => -0x80000000 ≤ v && v < 0x80000000
  | longLong => isWord v
  | unsignedLongLong => 0 ≤ v && v < sizeBound

/-- The type that two operands are converted to. -/
def common : CIntegerType → CIntegerType → CIntegerType
  | unsignedLongLong, _ | _, unsignedLongLong => unsignedLongLong
  | longLong, _ | _, longLong => longLong
  | int, int => int

/-- The types that a constant with a suffix may have, in the order in which they are tried. -/
def ofSuffix (suffix : String) : List CIntegerType :=
  if suffix = "" then [int, longLong]
  else if suffix = "LL" then [longLong]
  else if suffix = "ULL" then [unsignedLongLong]
  else []

end CIntegerType

/-- A value of one of the types. -/
structure CInteger where
  type : CIntegerType
  value : Int
  deriving DecidableEq, Repr

namespace CInteger

/-- What a computation in a type comes to: an unsigned type wraps, and where a signed one does not hold
the result, there is none. -/
def result? (type : CIntegerType) (v : Int) : Option CInteger :=
  if type = .unsignedLongLong then some ⟨type, v % sizeBound⟩
  else if type.holds v then some ⟨type, v⟩ else none

def negate? (a : CInteger) : Option CInteger := result? a.type (-a.value)

def subtract? (a b : CInteger) : Option CInteger :=
  result? (a.type.common b.type) (a.value - b.value)

/-- The value converted to the type of a script's integers. -/
def toWord (a : CInteger) : CInteger := ⟨.longLong, asWord a.value⟩

end CInteger

/-- A constant, with the first type that holds it. -/
def constant? (word : String) : Option CInteger :=
  let suffix := String.ofList (word.toList.rtakeWhile isLiteralSuffix)
  (unbounded? word.toList).bind fun value =>
    ((CIntegerType.ofSuffix suffix).find? (CIntegerType.holds value)).map (⟨·, value⟩)

def isWordLetter (c : Char) : Bool := c.isAlphanum || c == '_'

/-- The words, signs and brackets of an expression, without the blanks between them. -/
def expressionTokens (text : String) : List String :=
  ((text.toList.splitBy fun a b => isWordLetter a && isWordLetter b).filter (· ≠ [' '])).map String.ofList

mutual

/-- An operand at the front of some tokens: a constant, something in brackets, or an operand behind a
sign or a cast. So many of these may be inside each other. -/
def cOperand? : Nat → List String → Option (CInteger × List String)
  | depth + 1, "-" :: rest => do
    let (a, rest') ← cOperand? depth rest
    return (← a.negate?, rest')
  | depth + 1, "(" :: "lua_Integer" :: ")" :: rest => do
    let (a, rest') ← cOperand? depth rest
    return (a.toWord, rest')
  | depth + 1, "(" :: rest => do
    let (a, rest') ← cDifference? depth rest
    match rest' with
    | ")" :: rest'' => return (a, rest'')
    | _ => none
  | _ + 1, word :: rest => return (← constant? word, rest)
  | _, _ => none

/-- An operand and at most one that is subtracted from it. -/
def cDifference? : Nat → List String → Option (CInteger × List String)
  | depth + 1, tokens => do
    let (a, rest) ← cOperand? depth tokens
    match rest with
    | "-" :: rest' =>
      let (b, rest'') ← cOperand? depth rest'
      return (← a.subtract? b, rest'')
    | _ => return (a, rest)
  | _, _ => none

end

/-- The integer that an expression denotes where a script's integer is expected. -/
def cInteger? (text : String) : Option Int :=
  let tokens := expressionTokens text
  match cDifference? (tokens.length + 1) tokens with
  | some (a, []) => some a.toWord.value
  | _ => none

/-! ### Constants -/

theorem head?_toDigits : ∀ {n : Nat}, 0 < n → (Nat.toDigits 10 n).head? ≠ some '0' := by
  intro n
  induction n using Nat.strongRecOn with
  | _ n ih =>
    intro hn
    by_cases hlt : n < 10
    · have hdigit : ∀ d < 10, 0 < d → d.digitChar ≠ '0' := by decide
      rw [Nat.toDigits_of_lt_base hlt]
      simpa using hdigit n hlt hn
    · have hsplit := Nat.toDigits_append_toDigits (b := 10) (n := n / 10) (d := n % 10) (by omega)
        (by omega) (by omega)
      rw [Nat.div_add_mod] at hsplit
      rw [← hsplit, List.head?_append_of_ne_nil _ Nat.toDigits_ne_nil]
      exact ih (n / 10) (by omega) (by omega)

/-- A numeral is a decimal literal, whatever suffix is behind it. -/
theorem toDigits_isLiteral (n : Nat) {suffix : List Char}
    (hsuffix : ∀ c ∈ suffix, isLiteralSuffix c = true) :
    IsLiteral Signed (Nat.toDigits 10 n ++ suffix) n := by
  refine ⟨_, suffix, rfl, hsuffix, ?_⟩
  rcases Nat.eq_zero_or_pos n with rfl | hn
  · exact .zero
  · exact .decimal (head?_toDigits hn) (.plain ⟨n, digits?_iff.mp (digits?_toDigits n), rfl⟩)

theorem toList_toString (n : Nat) : (toString n).toList = Nat.toDigits 10 n := by
  change (Nat.repr n).toList = _
  rw [Nat.repr_eq_ofList_toDigits, String.toList_ofList]

theorem rtakeWhile_numeral (n : Nat) {suffix : List Char}
    (hsuffix : ∀ c ∈ suffix, isLiteralSuffix c = true) :
    (Nat.toDigits 10 n ++ suffix).rtakeWhile isLiteralSuffix = suffix := by
  have hdigits : (Nat.toDigits 10 n).rtakeWhile isLiteralSuffix = [] := by
    refine List.rtakeWhile_eq_nil_iff.mpr fun hne hlast => ?_
    have hdigit := Nat.isDigit_of_mem_toDigits (by omega) (by omega) (List.getLast_mem hne)
    simp only [isLiteralSuffix, Bool.or_eq_true, beq_iff_eq] at hlast
    rcases hlast with ((h | h) | h) | h <;> rw [h] at hdigit <;> exact absurd hdigit (by decide)
  rw [List.rtakeWhile, List.reverse_append,
    List.takeWhile_append_of_pos fun c hc => hsuffix c (List.mem_reverse.mp hc), List.reverse_append,
    List.reverse_reverse]
  exact congrArg (· ++ suffix) hdigits

/-- A numeral with a suffix is a constant of the first type that holds its number. -/
theorem constant?_numeral (n : Nat) (suffix : String)
    (hsuffix : ∀ c ∈ suffix.toList, isLiteralSuffix c = true) :
    constant? (toString n ++ suffix) =
      ((CIntegerType.ofSuffix suffix).find? (CIntegerType.holds n)).map (⟨·, n⟩) := by
  have hvalue : unbounded? (Nat.toDigits 10 n ++ suffix.toList) = some (n : Int) :=
    unbounded?_iff.mpr (toDigits_isLiteral n hsuffix)
  unfold constant?
  rw [String.toList_append, toList_toString, hvalue, rtakeWhile_numeral n hsuffix, String.ofList_toList]
  rfl

/-! ### Tokens -/

theorem expressionTokens_append {a b : String}
    (h : ∀ x ∈ a.toList.getLast?, ∀ y ∈ b.toList.head?, (isWordLetter x && isWordLetter y) = false) :
    expressionTokens (a ++ b) = expressionTokens a ++ expressionTokens b := by
  unfold expressionTokens
  rw [String.toList_append, List.splitBy_append h, List.filter_append, List.map_append]

theorem expressionTokens_word {w : String} (hne : w ≠ "")
    (h : ∀ c ∈ w.toList, isWordLetter c = true) : expressionTokens w = [w] := by
  have hpairwise : w.toList.Pairwise fun a b => (isWordLetter a && isWordLetter b) = true :=
    List.pairwise_of_forall_mem_list fun a ha b hb => by rw [h a ha, h b hb, Bool.and_self]
  have hblank : w.toList ≠ [' '] := fun heq =>
    absurd (h ' ' (heq ▸ List.mem_singleton_self _)) (by decide)
  unfold expressionTokens
  rw [List.splitBy_of_isChain (by simpa using hne) hpairwise.isChain, List.filter_cons,
    if_pos (by simpa using hblank)]
  simp

theorem isWordLetter_numeral {n : Nat} {c : Char} (hc : c ∈ (toString n).toList) :
    isWordLetter c = true := by
  rw [isWordLetter, Char.isAlphanum, isDigit_of_mem_toString hc, Bool.or_true, Bool.true_or]

theorem toString_ne_empty (n : Nat) : toString n ≠ "" := by
  rw [← String.toList_inj.ne, toList_toString]
  exact Nat.toDigits_ne_nil

theorem expressionTokens_numeral (n : Nat) : expressionTokens (toString n) = [toString n] :=
  expressionTokens_word (toString_ne_empty n) fun _ hc => isWordLetter_numeral hc

theorem toString_ne_of_mem {n : Nat} {s : String} {c : Char} (hc : c.isDigit = false)
    (hmem : c ∈ s.toList) : toString n ≠ s := by
  rintro rfl
  rw [isDigit_of_mem_toString hmem] at hc
  cases hc

/-! ### Operands -/

theorem cOperand?_constant (depth : Nat) {word : String} (hminus : word ≠ "-") (hopen : word ≠ "(")
    (rest : List String) :
    cOperand? (depth + 1) (word :: rest) = (constant? word).map (·, rest) := by
  rw [cOperand?]
  · cases constant? word <;> rfl
  · exact hminus
  · exact fun _ h _ => hopen h
  · exact hopen

/-- An expression that is one operand. -/
theorem cInteger?_of_cOperand? {text : String} {tokens : List String} {a : CInteger}
    (htokens : expressionTokens text = tokens)
    (h : cOperand? tokens.length tokens = some (a, [])) : cInteger? text = some (asWord a.value) := by
  unfold cInteger?
  rw [htokens]
  dsimp only
  rw [cDifference?, h]
  rfl

/-- A constant without a suffix is of a signed type. -/
theorem constant?_word {n : Nat} (h : isWord n = true) :
    ∃ type, type ≠ .unsignedLongLong ∧ type.holds n = true ∧
      constant? (toString n) = some ⟨type, n⟩ := by
  have hconstant := constant?_numeral n "" (by simp)
  have hlong : CIntegerType.longLong.holds n = true := h
  rw [String.append_empty, CIntegerType.ofSuffix, if_pos rfl] at hconstant
  by_cases hint : CIntegerType.int.holds n = true
  · rw [List.find?_cons_of_pos hint] at hconstant
    exact ⟨.int, by decide, hint, hconstant⟩
  · rw [List.find?_cons_of_neg hint, List.find?_cons_of_pos hlong] at hconstant
    exact ⟨.longLong, by decide, hlong, hconstant⟩

/-- What a signed type holds can be negated in it, the least value aside. -/
theorem negate?_natCast {type : CIntegerType} {n : Nat} (hsigned : type ≠ .unsignedLongLong)
    (h : type.holds n = true) : (⟨type, n⟩ : CInteger).negate? = some ⟨type, -n⟩ := by
  have hneg : type.holds (-n) = true := by
    cases type with
    | int =>
      simp only [CIntegerType.holds, Bool.and_eq_true, decide_eq_true_iff] at h ⊢
      omega
    | longLong =>
      simp only [CIntegerType.holds, isWord_iff] at h ⊢
      omega
    | unsignedLongLong => exact absurd rfl hsigned
  rw [CInteger.negate?, CInteger.result?, if_neg hsigned, if_pos hneg]

theorem cOperand?_numeral (depth n : Nat) (rest : List String) :
    cOperand? (depth + 1) (toString n :: rest) = (constant? (toString n)).map (·, rest) :=
  cOperand?_constant depth (toString_ne_of_mem (c := '-') (by decide) (by decide))
    (toString_ne_of_mem (c := '(') (by decide) (by decide)) rest

/-- A word is written as a numeral, with a sign if it is negative; the least one cannot be. -/
theorem cInteger?_toString {v : Int} (hword : isWord v = true) (hleast : v ≠ -2 ^ 63) :
    cInteger? (toString v) = some (asWord v) := by
  rw [isWord_iff] at hword
  cases v with
  | ofNat n =>
    obtain ⟨type, -, -, hconstant⟩ := constant?_word (isWord_iff.mpr hword)
    refine cInteger?_of_cOperand? (expressionTokens_numeral n) (a := ⟨type, n⟩) ?_
    rw [List.length_singleton, cOperand?_numeral, hconstant]
    rfl
  | negSucc n =>
    have hn : isWord (n + 1 : Nat) = true := by
      rw [isWord_iff]
      omega
    obtain ⟨type, hsigned, hholds, hconstant⟩ := constant?_word hn
    have htokens : expressionTokens ("-" ++ toString (n + 1)) = ["-", toString (n + 1)] := by
      rw [expressionTokens_append (by simp [isWordLetter]), expressionTokens_numeral]
      rfl
    refine cInteger?_of_cOperand? htokens (a := ⟨type, -(n + 1 : Nat)⟩) ?_
    rw [List.length_cons, List.length_singleton, cOperand?, cOperand?_numeral, hconstant]
    dsimp only [Option.map_some, Option.bind_eq_bind, Option.bind_some]
    rw [negate?_natCast hsigned hholds]
    rfl

/-- Above the words an expression is an unsigned constant, converted. -/
theorem cInteger?_cast {n : Nat} (h : n < sizeBound) :
    cInteger? ("(lua_Integer)" ++ toString n ++ "ULL") = some (asWord n) := by
  have hletter {c : Char} (hc : c ∈ (toString n ++ "ULL").toList) : isWordLetter c = true := by
    rw [String.toList_append, List.mem_append] at hc
    rcases hc with hc | hc
    · exact isWordLetter_numeral hc
    · have hall : "ULL".toList.all isWordLetter = true := by decide
      exact List.all_eq_true.mp hall c hc
  have hne {s : String} {c : Char} (hc : isWordLetter c = false) (hmem : c ∈ s.toList) :
      toString n ++ "ULL" ≠ s := by
    rintro rfl
    rw [hletter hmem] at hc
    cases hc
  have htokens : expressionTokens ("(lua_Integer)" ++ toString n ++ "ULL") =
      ["(", "lua_Integer", ")", toString n ++ "ULL"] := by
    rw [String.append_assoc, expressionTokens_append,
      expressionTokens_word (by simp) fun _ hc => hletter hc]
    · rfl
    · intro x hx y _
      obtain rfl : x = ')' := by simpa using hx.symm
      rfl
  have hconstant : constant? (toString n ++ "ULL") = some ⟨.unsignedLongLong, n⟩ := by
    have hholds : CIntegerType.unsignedLongLong.holds n = true := by
      simp only [CIntegerType.holds, Bool.and_eq_true, decide_eq_true_iff]
      omega
    have hletters : "ULL".toList.all isLiteralSuffix = true := by decide
    have hsuffix : CIntegerType.ofSuffix "ULL" = [.unsignedLongLong] := rfl
    rw [constant?_numeral n "ULL" (List.all_eq_true.mp hletters), hsuffix,
      List.find?_cons_of_pos hholds]
    rfl
  rw [cInteger?_of_cOperand? htokens (a := (⟨.unsignedLongLong, n⟩ : CInteger).toWord)]
  · rw [CInteger.toWord, asWord_asWord]
  · rw [List.length_cons, cOperand?, List.length_cons, List.length_cons, List.length_singleton,
      cOperand?_constant _ (hne (c := '-') (by decide) (by decide))
        (hne (c := '(') (by decide) (by decide)), hconstant]
    rfl

/-- **What the expression of a value denotes**: the value, as a script's integer holds it. -/
theorem integerLiteral_denotes {item : EnumItem} {text : String} (h : integerLiteral item = .ok text) :
    cInteger? text = some (asWord item.value) := by
  unfold integerLiteral at h
  dsimp only at h
  split at h
  · -- the least word, written as a difference
    rename_i hleast
    obtain rfl := Except.ok.inj h
    rw [eq_of_beq hleast]
    decide +kernel
  · rename_i hleast
    split at h
    · rename_i hword
      obtain rfl := Except.ok.inj h
      exact cInteger?_toString hword fun heq => hleast (beq_iff_eq.mpr heq)
    · split at h
      · rename_i hwide
        obtain rfl := Except.ok.inj h
        rw [Bool.and_eq_true, decide_eq_true_iff, decide_eq_true_iff] at hwide
        obtain ⟨n, hn⟩ := Int.eq_ofNat_of_zero_le (a := item.value) (by
          have hbound : (0 : Int) ≤ wordBound := by decide
          omega)
        rw [hn] at hwide ⊢
        exact cInteger?_cast (by omega)
      · cases h

/-- The values that have an expression. -/
theorem integerLiteral_eq_error_iff {item : EnumItem} {fault : Fault} :
    integerLiteral item = .error fault ↔
      (item.value < -2 ^ 63 ∨ 2 ^ 64 ≤ item.value) ∧ fault = .enumRange item.name item.value := by
  have hword : isWord item.value = true ↔ -2 ^ 63 ≤ item.value ∧ item.value < 2 ^ 63 := isWord_iff
  have hbound : wordBound = 2 ^ 63 := by decide
  have hsize : (sizeBound : Int) = 2 ^ 64 := by decide
  unfold integerLiteral
  dsimp only
  rw [hbound, hsize]
  split
  · rename_i hleast
    rw [beq_iff_eq] at hleast
    simp only [reduceCtorEq, false_iff, not_and]
    omega
  · split
    · rename_i h
      rw [hword] at h
      simp only [reduceCtorEq, false_iff, not_and]
      omega
    · split
      · rename_i h
        rw [Bool.and_eq_true, decide_eq_true_iff, decide_eq_true_iff] at h
        simp only [reduceCtorEq, false_iff, not_and]
        omega
      · rename_i hleast hnot hwide
        rw [beq_iff_eq] at hleast
        rw [hword] at hnot
        rw [Bool.and_eq_true, decide_eq_true_iff, decide_eq_true_iff] at hwide
        rw [Except.error.injEq, @eq_comm _ fault]
        refine (and_iff_right ?_).symm
        omega

/-! ## Numerals in scripts -/

/-- What a script takes a numeral for; of a float only that it is one. -/
inductive ScriptNumber where
  | integer (n : Int)
  | float
  deriving DecidableEq, Repr

namespace ScriptNumber

def negate : ScriptNumber → ScriptNumber
  | integer n => integer (asWord (-n))
  | float => float

/-- A decimal numeral without a sign. -/
def ofDigits (n : Nat) : ScriptNumber := if isWord n then integer n else float

end ScriptNumber

/-- The number that a decimal numeral denotes, which a sign may stand in front of. -/
def scriptNumber? (text : String) : Option ScriptNumber :=
  match text.toList with
  | '-' :: digits => (digits? 10 digits).map fun n => (ScriptNumber.ofDigits n).negate
  | digits => (digits? 10 digits).map ScriptNumber.ofDigits

/-- **What the numeral of a value denotes**: the value if it fits a word and is not the least of them, and
a float otherwise. -/
theorem numeral_denotes (v : Int) :
    scriptNumber? (toString v) =
      some (if -2 ^ 63 < v ∧ v < 2 ^ 63 then .integer v else .float) := by
  cases v with
  | ofNat n =>
    change scriptNumber? (toString n) = _
    have hunsigned : scriptNumber? (toString n) = some (.ofDigits n) := by
      unfold scriptNumber?
      rw [toList_toString]
      split
      · rename_i digits heq
        have hminus : '-' ∈ Nat.toDigits 10 n := heq ▸ List.mem_cons_self
        exact absurd (Nat.isDigit_of_mem_toDigits (by omega) (by omega) hminus) (by decide)
      · rw [digits?_toDigits]
        rfl
    rw [hunsigned, ScriptNumber.ofDigits]
    refine congrArg some (ite_congr (propext ?_) (fun _ => rfl) fun _ => rfl)
    rw [isWord_iff, Int.ofNat_eq_natCast]
    omega
  | negSucc n =>
    have hsigned : scriptNumber? ("-" ++ toString (n + 1)) = some (ScriptNumber.ofDigits (n + 1)).negate := by
      unfold scriptNumber?
      rw [String.toList_append, toList_toString]
      exact congrArg (Option.map _) (digits?_toDigits (n + 1))
    refine hsigned.trans (congrArg some ?_)
    unfold ScriptNumber.ofDigits
    by_cases hn : isWord (n + 1 : Nat) = true
    · have hvalue : isWord (-(n + 1 : Nat)) = true := by
        rw [isWord_iff] at hn ⊢
        omega
      rw [if_pos hn, if_pos (by rw [isWord_iff] at hn; omega), ScriptNumber.negate,
        asWord_of_isWord hvalue]
      rfl
    · rw [if_neg hn, if_neg (by rw [isWord_iff] at hn; omega), ScriptNumber.negate]

end LuaGlue
