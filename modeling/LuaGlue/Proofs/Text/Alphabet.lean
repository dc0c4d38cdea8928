import LuaGlue.Proofs.Naming.Letters

/-!
# What a text is written with

`Over P s` says that all characters of `s` are in `P`. Generated text is put together from fixed text,
from names and from spellings, and names are made from names by cutting, joining and changing cases. So a
set of characters that holds fixed text and is closed under cases (`Alphabet`) holds all of the output if
it holds the strings of the module. Names alone ask for less, `NameAlphabet`: letters, digits and the
underscore instead of all fixed text.

Braces stay out of every text but where blocks are opened and closed because the characters that are no
braces are an alphabet (`NoBrace`).
-/

set_option autoImplicit false

namespace LuaGlue

namespace Text

/-! ## Texts over an alphabet -/

/-- The text has no characters but those in `P`. -/
def Over (P : Char → Prop) (s : String) : Prop := ∀ c ∈ s.toList, P c

section

variable {P : Char → Prop} {s t : String}

@[simp] theorem over_append : Over P (s ++ t) ↔ Over P s ∧ Over P t := by
  rw [Over, String.toList_append]
  exact List.forall_mem_append

@[simp] theorem over_ofList {cs : List Char} : Over P (String.ofList cs) ↔ ∀ c ∈ cs, P c := by
  rw [Over, String.toList_ofList]

@[simp] theorem over_empty : Over P "" := fun _ hc => absurd hc List.not_mem_nil

theorem over_join {ts : List String} (h : ∀ t ∈ ts, Over P t) : Over P (String.join ts) := by
  rw [Over, String.toList_join]
  intro c hc
  obtain ⟨t, ht, hc⟩ := List.mem_flatMap.mp hc
  exact h t ht c hc

theorem over_intercalate {ts : List String} (hs : Over P s) (h : ∀ t ∈ ts, Over P t) :
    Over P (s.intercalate ts) := by
  induction ts with
  | nil => exact over_empty
  | cons t rest ih =>
    have hrest := ih fun t' ht' => h t' (List.mem_cons_of_mem t ht')
    cases rest with
    | nil => simpa using h t List.mem_cons_self
    | cons t' rest =>
      rw [String.intercalate_cons_cons]
      exact over_append.mpr ⟨over_append.mpr ⟨h t List.mem_cons_self, hs⟩, hrest⟩

theorem mem_of_mem_dropWhile {p : Char → Bool} {c : Char} {cs : List Char}
    (h : c ∈ cs.dropWhile p) : c ∈ cs :=
  (List.dropWhile_suffix p).subset h

theorem mem_of_mem_trim {c : Char} {cs : List Char} (h : c ∈ trim cs) : c ∈ cs :=
  mem_of_mem_dropWhile (mem_of_mem_dropEndWhile h)

theorem Over.trimmed (h : Over P s) : Over P (trimmed s) :=
  over_ofList.mpr fun c hc => h c (mem_of_mem_trim hc)

end

/-! ## Alphabets -/

/-- A byte of plain text: ASCII, and no brace. -/
def isPlainByte (b : UInt8) : Bool := b.toNat < 0x80 && b.toNat != 0x7B && b.toNat != 0x7D

/-- The bytes of a text. Text is stored in bytes, so they are quicker to look at than characters. -/
def bytes (s : String) : List UInt8 := s.toByteArray.data.toList

theorem bytes_eq (s : String) : bytes s = s.toList.flatMap String.utf8EncodeChar := by
  rw [← String.ofList_toList (s := s), bytes, String.toByteArray_ofList, List.utf8Encode,
    List.data_toByteArray, String.toList_ofList]

/-- Where the bytes of a word do not stand, the word does not. -/
theorem not_infix_of_bytes {word s : String} (h : ¬ bytes word <:+: bytes s) :
    ¬ word.toList <:+: s.toList := by
  rintro ⟨before, after, heq⟩
  refine h ⟨before.flatMap String.utf8EncodeChar, after.flatMap String.utf8EncodeChar, ?_⟩
  rw [bytes_eq s, ← heq, bytes_eq, List.flatMap_append, List.flatMap_append]

/-- Plain text: ASCII without a brace. -/
def isPlainText (s : String) : Bool := (bytes s).all isPlainByte

/-- What names are made of, in any script that is closed under cases. -/
class NameAlphabet (P : Char → Prop) : Prop where
  word : ∀ c : Char, (c.isAlphanum || c == '_') = true → P c
  small : ∀ c, P c → ∀ d ∈ small c, P d
  capital : ∀ c, P c → ∀ d ∈ capital c, P d

/-- What generated text is made of. -/
class Alphabet (P : Char → Prop) : Prop extends NameAlphabet P where
  plain : ∀ c : Char, c.toNat < 0x80 → c ≠ '\x7b' → c ≠ '\x7d' → P c

/-- The bytes of plain text are its characters. -/
theorem plain_of_mem {s : String} (h : isPlainText s = true) {c : Char} (hc : c ∈ s.toList) :
    c.toNat < 0x80 ∧ c ≠ '\x7b' ∧ c ≠ '\x7d' := by
  have hbytes : ∀ b ∈ String.utf8EncodeChar c, isPlainByte b = true := by
    intro b hb
    refine List.all_eq_true.mp h b ?_
    rw [← String.ofList_toList (s := s), bytes, String.toByteArray_ofList, List.utf8Encode,
      List.data_toByteArray]
    exact List.mem_flatMap.mpr ⟨c, hc, hb⟩
  have hvalue : c.val.toNat = c.toNat := rfl
  have hsmall : c.toNat < 0x80 := by
    refine Nat.lt_of_not_le fun hlarge => ?_
    -- the first byte of a longer character is no ASCII
    have hfirst : ∃ b ∈ String.utf8EncodeChar c, 0x80 ≤ b.toNat := by
      rw [String.utf8EncodeChar.eq_1, hvalue]
      split
      · omega
      · split
        · exact ⟨_, List.mem_cons_self, by rw [UInt8.toNat_ofNat']; omega⟩
        · split
          · exact ⟨_, List.mem_cons_self, by rw [UInt8.toNat_ofNat']; omega⟩
          · exact ⟨_, List.mem_cons_self, by rw [UInt8.toNat_ofNat']; omega⟩
    obtain ⟨b, hb, hlarge⟩ := hfirst
    have := hbytes b hb
    simp only [isPlainByte, Bool.and_eq_true, decide_eq_true_eq] at this
    omega
  have hself : UInt8.ofNat c.toNat ∈ String.utf8EncodeChar c := by
    rw [String.utf8EncodeChar.eq_1, hvalue, if_pos (by omega)]
    exact List.mem_singleton.mpr rfl
  have hbyte := hbytes _ hself
  rw [isPlainByte, UInt8.toNat_ofNat', Nat.mod_eq_of_lt (by omega)] at hbyte
  refine ⟨hsmall, ?_, ?_⟩ <;>
  · rintro rfl
    exact absurd hbyte (by decide)

section

variable {P : Char → Prop}

theorem over_literal [Alphabet P] {s : String} (h : isPlainText s = true) : Over P s := by
  intro c hc
  obtain ⟨hsmall, hopen, hclose⟩ := plain_of_mem h hc
  exact Alphabet.plain c hsmall hopen hclose

theorem plain_word {c : Char} (h : (c.isAlphanum || c == '_') = true) :
    c.toNat < 0x80 ∧ c ≠ '\x7b' ∧ c ≠ '\x7d' := by
  refine ⟨?_, ?_, ?_⟩
  · simp only [Char.isAlphanum, Char.isAlpha, Bool.or_eq_true, isUpper_iff, isLower_iff,
      Char.isDigit_iff_toNat, beq_iff_eq] at h
    have hnine : '9'.toNat = 0x39 := rfl
    have hunderscore : '_'.toNat = 0x5F := rfl
    rcases h with ((h | h) | h) | rfl <;> omega
  all_goals
    rintro rfl
    exact absurd h (by decide)

/-- Text of letters, digits and underscores. -/
theorem over_word [NameAlphabet P] {s : String}
    (h : (s.toList.all fun c => c.isAlphanum || c == '_') = true) : Over P s :=
  fun c hc => NameAlphabet.word c (List.all_eq_true.mp h c hc)

theorem over_toString [NameAlphabet P] (n : Nat) : Over P (toString n) := by
  intro c hc
  refine NameAlphabet.word c ?_
  simp [Char.isAlphanum, isDigit_of_mem_toString hc]

/-- The same for the form in which `simp` has numerals. -/
@[simp] theorem over_repr [NameAlphabet P] (n : Nat) : Over P n.repr := over_toString n

theorem over_toString_int [Alphabet P] (z : Int) : Over P (toString z) := by
  cases z with
  | ofNat n => exact over_toString n
  | negSucc n => exact over_append.mpr ⟨over_literal (by decide), over_toString (n + 1)⟩

@[simp] theorem over_repr_int [Alphabet P] (z : Int) : Over P z.repr := over_toString_int z

end

/-! ## Everything, and everything but braces -/

/-- All characters. -/
def Anything : Char → Prop := fun _ => True

instance : Alphabet Anything where
  word _ _ := trivial
  small _ _ _ _ := trivial
  capital _ _ _ _ := trivial
  plain _ _ _ _ := trivial

theorem over_anything (s : String) : Over Anything s := fun _ _ => trivial

/-- All characters but the two braces. -/
def NoBrace (c : Char) : Prop := c ≠ '\x7b' ∧ c ≠ '\x7d'

instance (c : Char) : Decidable (NoBrace c) := inferInstanceAs (Decidable (_ ∧ _))

theorem noBrace_ofNat {n : Nat} (hopen : n ≠ 0x7B) (hclose : n ≠ 0x7D) : NoBrace (Char.ofNat n) := by
  constructor <;>
  · intro h
    have h := congrArg Char.toNat h
    rw [Char.toNat_ofNat] at h
    split at h
    · exact absurd h (by simpa using ‹_›)
    · exact absurd h (by decide)

/-- Shifted letters pass the braces by on either side. -/
theorem noBrace_shifted {shifts : List (Nat × Nat × Nat × Int)}
    (h : ∀ e ∈ shifts, (e.2.1 : Int) + e.2.2.2 ≤ 0x7A ∨ (0x7E : Int) ≤ e.1 + e.2.2.2) :
    ∀ e ∈ shifts, ∀ n : Nat, e.1 ≤ n → n ≤ e.2.1 →
      NoBrace (Char.ofNat (n + e.2.2.2).toNat) := by
  intro e he n hn hn'
  have := h e he
  exact noBrace_ofNat (by omega) (by omega)

/-- Among the ASCII characters the cases have no brace between them. -/
theorem noBrace_ascii : ∀ n < 0x80, NoBrace (Char.ofNat n) →
    NoBrace (Char.ofNat n).toLower ∧ NoBrace (Char.ofNat n).toUpper := by
  decide +kernel

theorem small_noBrace (c : Char) (hc : NoBrace c) : ∀ d ∈ small c, NoBrace d := by
  unfold small
  split
  · rename_i hascii
    intro d hd
    have h := noBrace_ascii c.toNat hascii
    rw [Char.ofNat_toNat] at h
    rw [List.mem_singleton.mp hd]
    exact (h hc).1
  · exact mem_otherForm (by decide) (noBrace_shifted (by decide +kernel)) hc

theorem capital_noBrace (c : Char) (hc : NoBrace c) : ∀ d ∈ capital c, NoBrace d := by
  unfold capital
  split
  · rename_i hascii
    intro d hd
    have h := noBrace_ascii c.toNat hascii
    rw [Char.ofNat_toNat] at h
    rw [List.mem_singleton.mp hd]
    exact (h hc).2
  · exact mem_otherForm (by decide) (noBrace_shifted (by decide +kernel)) hc

instance : Alphabet NoBrace where
  word _ h := (plain_word h).2
  small := small_noBrace
  capital := capital_noBrace
  plain _ _ hopen hclose := ⟨hopen, hclose⟩

end Text

end LuaGlue
