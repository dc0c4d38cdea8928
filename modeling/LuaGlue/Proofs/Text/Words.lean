import LuaGlue.Proofs.CType.Pieces
import LuaGlue.Proofs.Naming.Identifiers

/-!
# Words in a text

A text calls a function of the auxiliary library by an identifier, so a text that calls none of some functions
is one in which no identifier begins as theirs do (`Names`). The names and spellings of a module have nothing
of that library in them at all (`Foreign`), and generated text is put together from them and from fixed text.
A word cannot come about in between as long as the parts do not run together in an identifier (`Apart`),
which fixed text sees to by the character it begins or ends with.

For fixed text all of this is decided on its bytes.
-/

set_option autoImplicit false

namespace LuaGlue

namespace Text

/-! ## Bytes -/

/-- A byte that is a character of an identifier by itself. -/
def isNameByte (b : UInt8) : Bool :=
  (0x30 ≤ b && b ≤ 0x39) || (0x41 ≤ b && b ≤ 0x5A) || (0x61 ≤ b && b ≤ 0x7A) || b == 0x5F

theorem nameChar_bytes : ∀ n < 0x80, isNameChar (Char.ofNat n) = true →
    String.utf8EncodeChar (Char.ofNat n) = [UInt8.ofNat n] ∧ isNameByte (UInt8.ofNat n) = true := by
  decide +kernel

/-- A character of an identifier is one such byte. -/
theorem exists_nameByte {c : Char} (h : isNameChar c = true) :
    ∃ b, String.utf8EncodeChar c = [b] ∧ isNameByte b = true := by
  have hbytes := nameChar_bytes c.toNat (NameChar.ascii h)
  rw [Char.ofNat_toNat] at hbytes
  exact ⟨_, hbytes h⟩

/-- Fixed text that begins with no character of an identifier. -/
def opensApart (s : String) : Bool := (bytes s).head?.any fun b => !isNameByte b

/-- Fixed text that ends with no character of an identifier. -/
def endsApart (s : String) : Bool := (bytes s).getLast?.any fun b => !isNameByte b

theorem head_of_opensApart {s : String} (h : opensApart s = true) :
    ∀ c ∈ s.toList.head?, isNameChar c = false := by
  intro c hc
  obtain ⟨rest, hs⟩ := List.head?_eq_some_iff.mp hc
  refine Bool.eq_false_iff.mpr fun hname => ?_
  obtain ⟨b, hb, hbyte⟩ := exists_nameByte hname
  rw [opensApart, bytes_eq, hs, List.flatMap_cons, hb] at h
  simp [hbyte] at h

theorem ne_nil_of_endsApart {s : String} (h : endsApart s = true) : s.toList ≠ [] := by
  intro hs
  rw [endsApart, bytes_eq, hs] at h
  cases h

theorem last_of_endsApart {s : String} (h : endsApart s = true) :
    ∀ c ∈ s.toList.getLast?, isNameChar c = false := by
  intro c hc
  obtain ⟨front, hs⟩ := List.getLast?_eq_some_iff.mp hc
  refine Bool.eq_false_iff.mpr fun hname => ?_
  obtain ⟨b, hb, hbyte⟩ := exists_nameByte hname
  rw [endsApart, bytes_eq, hs, List.flatMap_append, List.flatMap_singleton, hb] at h
  simp [hbyte] at h

/-! ## Words at a seam -/

section

variable {word a b before after : List Char}

/-- An identifier of the text begins with the word. -/
def Names (word text : List Char) : Prop :=
  ∃ before after, text = before ++ (word ++ after) ∧ ∀ c ∈ before.getLast?, isNameChar c = false

theorem Names.infix (h : Names word a) : word <:+: a := by
  obtain ⟨before, after, rfl, -⟩ := h
  exact ⟨before, after, by simp⟩

/-- Two texts, one after the other, do not run together in an identifier. -/
def Apart (a b : List Char) : Prop :=
  (∀ c ∈ a.getLast?, isNameChar c = false) ∨ ∀ c ∈ b.head?, isNameChar c = false

/-- **A word of identifiers does not stand across a seam**: it stands before it or behind it. -/
theorem Apart.word_eq (hword : ∀ c ∈ word, isNameChar c = true) (hapart : Apart a b)
    (h : a ++ b = before ++ (word ++ after)) :
    (∃ after', a = before ++ (word ++ after')) ∨
      ∃ before', b = before' ++ (word ++ after) ∧
        (before' = [] ∨ before'.getLast? = before.getLast?) := by
  rcases List.append_eq_append_iff.mp h with ⟨between, hbefore, hb⟩ | ⟨begun, ha, hrest⟩
  · refine .inr ⟨between, hb, ?_⟩
    rcases List.eq_nil_or_concat between with rfl | ⟨front, c, rfl⟩
    · exact .inl rfl
    · exact .inr (by simp [hbefore])
  · rcases List.append_eq_append_iff.mp hrest with ⟨after', hbegun, -⟩ | ⟨rest, hsplit, hb⟩
    · exact .inl ⟨after', by rw [ha, hbegun]⟩
    · -- the word is begun before the seam and ended behind it, so one of its parts is empty
      rcases List.eq_nil_or_concat begun with rfl | ⟨front, c, rfl⟩
      · exact .inr ⟨[], by rw [hb, hsplit]; rfl, .inl rfl⟩
      · cases rest with
        | nil => exact .inl ⟨[], by rw [ha, hsplit]; simp⟩
        | cons d rest =>
          have hc : isNameChar c = true := hword c (by simp [hsplit])
          have hd : isNameChar d = true := hword d (by simp [hsplit])
          rcases hapart with hapart | hapart
          · have hlast := hapart c (by simp [ha])
            rw [hc] at hlast
            cases hlast
          · have hhead := hapart d (by simp [hb])
            rw [hd] at hhead
            cases hhead

theorem Apart.infix_iff (hword : ∀ c ∈ word, isNameChar c = true) (hapart : Apart a b) :
    word <:+: a ++ b ↔ word <:+: a ∨ word <:+: b := by
  constructor
  · rintro ⟨before, after, heq⟩
    have hsplit : a ++ b = before ++ (word ++ after) := by simpa using heq.symm
    rcases hapart.word_eq hword hsplit with ⟨after', rfl⟩ | ⟨before', rfl, -⟩
    · exact .inl ⟨before, after', by simp⟩
    · exact .inr ⟨before', after, by simp⟩
  · rintro (h | h)
    · exact h.trans (List.prefix_append a b).isInfix
    · exact h.trans (List.suffix_append a b).isInfix

theorem Apart.names_iff (hword : ∀ c ∈ word, isNameChar c = true) (hne : word ≠ []) (hapart : Apart a b) :
    Names word (a ++ b) ↔ Names word a ∨ Names word b := by
  constructor
  · rintro ⟨before, after, heq, hbefore⟩
    rcases hapart.word_eq hword heq with ⟨after', rfl⟩ | ⟨before', rfl, hnil | hlast⟩
    · exact .inl ⟨before, after', rfl, hbefore⟩
    · exact .inr ⟨before', after, rfl, by simp [hnil]⟩
    · exact .inr ⟨before', after, rfl, by rwa [hlast]⟩
  · rintro (⟨before, after, rfl, hbefore⟩ | ⟨before, after, rfl, hbefore⟩)
    · exact ⟨before, after ++ b, by simp, hbefore⟩
    · refine ⟨a ++ before, after, by simp, ?_⟩
      rcases List.eq_nil_or_concat before with rfl | ⟨front, c, rfl⟩
      · -- the word begins at the seam, which therefore is at the end of the first text
        obtain ⟨d, rest, rfl⟩ := List.exists_cons_of_ne_nil hne
        rcases hapart with hapart | hapart
        · simpa using hapart
        · have hd : isNameChar d = true := hword d List.mem_cons_self
          have hhead := hapart d (by simp)
          rw [hd] at hhead
          cases hhead
      · simpa using hbefore

end

/-! ## Functions that raise an error -/

/-- What the names of the auxiliary library begin with. -/
def auxiliaryStem : String := "luaL_"

/-- What the names of those of its functions begin with that raise an error of their own. -/
def raisingWords : List String := ["luaL_check", "luaL_typeerror", "luaL_argerror", "luaL_error"]

theorem stem_prefix_of_raising : ∀ word ∈ raisingWords, auxiliaryStem.toList <+: word.toList := by
  decide

theorem nameChar_of_raising : ∀ word ∈ raisingWords, ∀ c ∈ word.toList, isNameChar c = true := by
  have h : (raisingWords.all fun word => word.toList.all isNameChar) = true := by decide
  simpa only [List.all_eq_true] using h

theorem nameChar_of_stem : ∀ c ∈ auxiliaryStem.toList, isNameChar c = true :=
  List.all_eq_true.mp (by decide)

theorem ne_nil_of_raising : ∀ word ∈ raisingWords, word.toList ≠ [] := by decide

/-- Text with nothing of the auxiliary library in it. -/
def Foreign (s : String) : Prop := ¬ auxiliaryStem.toList <:+: s.toList

/-- Text in which no identifier begins as the functions do that raise an error. -/
def Quiet (s : String) : Prop := ∀ word ∈ raisingWords, ¬ Names word.toList s.toList

section

variable {s t u : String}

theorem Foreign.of_infix (h : Foreign s) (hpiece : t.toList <:+: s.toList) : Foreign t :=
  fun hstem => h (hstem.trans hpiece)

theorem Foreign.quiet (h : Foreign s) : Quiet s := fun word hword hnames =>
  h ((stem_prefix_of_raising word hword).isInfix.trans hnames.infix)

theorem foreign_literal (h : ¬ bytes auxiliaryStem <:+: bytes s) : Foreign s := not_infix_of_bytes h

theorem quiet_literal (h : ¬ bytes auxiliaryStem <:+: bytes s) : Quiet s := (foreign_literal h).quiet

/-- A character of the stem that a text does not have keeps the stem out of it. -/
theorem foreign_of_not_mem {c : Char} (hc : c ∈ auxiliaryStem.toList) (h : c ∉ s.toList) :
    Foreign s :=
  fun hstem => h (hstem.subset hc)

theorem foreign_append (h : Apart s.toList t.toList) : Foreign (s ++ t) ↔ Foreign s ∧ Foreign t := by
  rw [Foreign, String.toList_append, h.infix_iff nameChar_of_stem, not_or]
  rfl

theorem quiet_append (h : Apart s.toList t.toList) : Quiet (s ++ t) ↔ Quiet s ∧ Quiet t := by
  rw [Quiet, Quiet, Quiet, ← forall₂_and]
  refine forall₂_congr fun word hword => ?_
  rw [String.toList_append,
    h.names_iff (nameChar_of_raising word hword) (ne_nil_of_raising word hword), not_or]

theorem apart_open (h : opensApart t = true) : Apart s.toList t.toList := .inr (head_of_opensApart h)

theorem apart_end (h : endsApart s = true) : Apart s.toList t.toList := .inl (last_of_endsApart h)

theorem apart_between (h : endsApart t = true) : Apart (s ++ t).toList u.toList := by
  refine .inl fun c hc => last_of_endsApart h c ?_
  rwa [String.toList_append, List.getLast?_append_of_ne_nil _ (ne_nil_of_endsApart h)] at hc

/-! Fixed text in front, between and behind, for `simp` with `decide` as its discharger. -/

theorem foreign_open (h : opensApart t = true) : Foreign (s ++ t) ↔ Foreign s ∧ Foreign t :=
  foreign_append (apart_open h)

theorem foreign_end (h : endsApart s = true) : Foreign (s ++ t) ↔ Foreign s ∧ Foreign t :=
  foreign_append (apart_end h)

theorem quiet_open (h : opensApart t = true) : Quiet (s ++ t) ↔ Quiet s ∧ Quiet t :=
  quiet_append (apart_open h)

theorem quiet_end (h : endsApart s = true) : Quiet (s ++ t) ↔ Quiet s ∧ Quiet t :=
  quiet_append (apart_end h)

theorem quiet_between (h : endsApart t = true) : Quiet (s ++ t ++ u) ↔ Quiet (s ++ t) ∧ Quiet u :=
  quiet_append (apart_between h)

@[simp] theorem foreign_empty : Foreign "" := foreign_literal (by decide)

@[simp] theorem quiet_empty : Quiet "" := foreign_empty.quiet

theorem foreign_toString (n : Nat) : Foreign (toString n) := by
  refine foreign_of_not_mem (c := '_') (by decide) fun h => ?_
  have hdigit := isDigit_of_mem_toString h
  exact absurd hdigit (by decide)

/-- A number behind fixed text that has not all letters of the stem. -/
theorem foreign_counted (hs : 'L' ∉ s.toList) (n : Nat) : Foreign (s ++ toString n) := by
  refine foreign_of_not_mem (c := 'L') (by decide) fun h => ?_
  rw [String.toList_append] at h
  rcases List.mem_append.mp h with h | h
  · exact hs h
  · exact absurd (isDigit_of_mem_toString h) (by decide)

@[simp] theorem quiet_repr (n : Nat) : Quiet n.repr := (foreign_toString n).quiet

theorem Foreign.trimmed (h : Foreign s) : Foreign (trimmed s) :=
  h.of_infix (by rw [Text.trimmed, String.toList_ofList]; exact infix_trim s.toList)

/-! ## Behind an underscore

Names are also put together from names, with underscores between them. The stem ends with its only underscore,
so all it can do there is to end with that one. -/

/-- The stem without its underscore. -/
def stemWord : String := "luaL"

theorem stem_eq : auxiliaryStem.toList = stemWord.toList ++ ['_'] := by decide

/-- There is no underscore in it, so it does not reach back to one. -/
theorem nil_of_stemWord {a before part rest : List Char} (h : a ++ ['_'] = before ++ part)
    (hword : stemWord.toList = part ++ rest) : part = [] := by
  rcases List.eq_nil_or_concat part with rfl | ⟨begun, c, rfl⟩
  · rfl
  · have hc : c = '_' := by
      have := congrArg List.getLast? h
      simpa using this.symm
    exact absurd (hword ▸ by simp [hc] : '_' ∈ stemWord.toList) (by decide)

/-- The stem stands before an underscore, or ends with it, or stands behind it. -/
theorem stem_at_underscore {a b before after : List Char}
    (h : a ++ '_' :: b = before ++ (auxiliaryStem.toList ++ after)) :
    (∃ after', a = before ++ (auxiliaryStem.toList ++ after')) ∨
      (a = before ++ stemWord.toList ∧ b = after) ∨ auxiliaryStem.toList <:+: b := by
  rw [stem_eq, List.append_assoc, List.singleton_append, ← List.append_assoc] at h
  rcases List.append_eq_append_iff.mp h with ⟨between, hbefore, hb⟩ | ⟨between, ha, hafter⟩
  · cases between with
    | nil => exact .inr (.inl ⟨by simpa using hbefore.symm, by simpa using hb⟩)
    | cons c between =>
      obtain ⟨rfl, rfl⟩ := List.cons.inj hb
      -- the word before this underscore has none of its own, so all of it is behind the first one
      rw [← List.singleton_append, ← List.append_assoc] at hbefore
      rcases List.append_eq_append_iff.mp hbefore with ⟨part, hpart, hword⟩ | ⟨front, -, hfront⟩
      · obtain rfl := nil_of_stemWord hpart hword
        refine .inr (.inr ⟨[], after, ?_⟩)
        rw [stem_eq, hword]
        simp
      · refine .inr (.inr ⟨front, after, ?_⟩)
        rw [stem_eq, hfront]
        simp
  · cases between with
    | nil => exact .inr (.inl ⟨by simpa using ha, by simpa using hafter.symm⟩)
    | cons c between =>
      obtain ⟨rfl, -⟩ := List.cons.inj hafter
      refine .inl ⟨between, ?_⟩
      rw [ha, stem_eq]
      simp

/-- Fixed text that ends with an underscore. -/
def leads (s : String) : Bool := s.toList.getLast? == some '_'

theorem exists_of_leads (h : leads s = true) : ∃ front, s.toList = front ++ ['_'] :=
  List.getLast?_eq_some_iff.mp (beq_iff_eq.mp h)

/-- A name behind fixed text. -/
theorem foreign_behind (hlead : leads s = true) (hs : Foreign s) (ht : Foreign t) :
    Foreign (s ++ t) := by
  obtain ⟨front, hfront⟩ := exists_of_leads hlead
  rintro ⟨before, after, h⟩
  have hseam : front ++ '_' :: t.toList = before ++ (auxiliaryStem.toList ++ after) := by
    rw [← List.append_assoc, h, String.toList_append, hfront]
    simp
  rcases stem_at_underscore hseam with ⟨after', hin⟩ | ⟨hend, -⟩ | hin
  · exact hs ⟨before, after' ++ ['_'], by rw [hfront, hin]; simp⟩
  · exact hs ⟨before, [], by rw [hfront, hend, stem_eq]; simp⟩
  · exact ht hin

/-- The text's last word is the stem without its underscore, and it is not the only one. An identifier is
one word. -/
def EndsInStem (s : String) : Prop :=
  ∃ front c, s.toList = front ++ c :: stemWord.toList ∧ isNameChar c = false

theorem not_endsInStem (h : ∀ c ∈ s.toList, isNameChar c = true) : ¬ EndsInStem s := by
  rintro ⟨front, c, heq, hc⟩
  have hname := h c (by simp [heq])
  rw [hc] at hname
  cases hname

/-- **An identifier made of two names begins with the stem only if the first of them ends in it.** -/
theorem not_names_joined (hlead : leads s = true) (hs : Foreign s) (ht : Foreign t) (hu : Foreign u)
    (hend : ¬ EndsInStem t) : ¬ Names auxiliaryStem.toList (s ++ t ++ "_" ++ u).toList := by
  rintro ⟨before, after, h, hbefore⟩
  have hseam : (s ++ t).toList ++ '_' :: u.toList = before ++ (auxiliaryStem.toList ++ after) := by
    rw [← h]
    simp
  rcases stem_at_underscore hseam with ⟨after', hin⟩ | ⟨hword, -⟩ | hin
  · exact foreign_behind hlead hs ht ⟨before, after', by rw [hin]; simp⟩
  · obtain ⟨front, hfront⟩ := exists_of_leads hlead
    rw [String.toList_append, hfront] at hword
    rcases List.append_eq_append_iff.mp hword with ⟨rest, hrest, ht'⟩ | ⟨part, hpart, hpieces⟩
    · -- what stands between the fixed text and the stem ends before the identifier begins
      rcases List.eq_nil_or_concat rest with rfl | ⟨begun, c, rfl⟩
      · have := hbefore '_' (by simp [hrest])
        exact absurd this (by decide)
      · have hlast : before.getLast? = some c := by
          rw [hrest, List.concat_eq_append, ← List.append_assoc, List.getLast?_concat]
        exact hend ⟨begun, c, by simpa using ht', hbefore c hlast⟩
    · obtain rfl := nil_of_stemWord hpart hpieces
      have hlast : before.getLast? = some '_' := by
        rw [← List.append_nil before, ← hpart, List.getLast?_concat]
      exact absurd (hbefore '_' hlast) (by decide)
  · exact hu hin

theorem quiet_of_not_names (h : ¬ Names auxiliaryStem.toList s.toList) : Quiet s := by
  rintro word hword ⟨before, after, heq, hbefore⟩
  obtain ⟨rest, hrest⟩ := stem_prefix_of_raising word hword
  exact h ⟨before, rest ++ after, by rw [heq, ← hrest]; simp, hbefore⟩

theorem stem_letter_of_raising : ∀ word ∈ raisingWords,
    ∃ c rest, word.toList = auxiliaryStem.toList ++ c :: rest ∧ c.isDigit = false := by
  have h : (raisingWords.all fun word =>
      (word.toList.drop auxiliaryStem.toList.length).head?.any fun c => !c.isDigit) = true := by decide
  intro word hword
  obtain ⟨c, hhead, hc⟩ := (Option.any_eq_true _ _).mp (List.all_eq_true.mp h word hword)
  obtain ⟨rest, hrest⟩ := List.head?_eq_some_iff.mp hhead
  obtain ⟨tail, htail⟩ := stem_prefix_of_raising word hword
  rw [← htail, List.drop_left] at hrest
  exact ⟨c, rest, by rw [← htail, hrest], by simpa using hc⟩

/-- A number behind such an identifier adds nothing to it. -/
theorem quiet_numbered (h : ¬ Names auxiliaryStem.toList s.toList) (n : Nat) :
    Quiet (s ++ "_" ++ toString n) := by
  rintro word hword ⟨before, after, heq, hbefore⟩
  obtain ⟨c, rest, hletter, hc⟩ := stem_letter_of_raising word hword
  have hseam : s.toList ++ '_' :: (toString n).toList =
      before ++ (auxiliaryStem.toList ++ (c :: rest ++ after)) := by
    rw [← List.append_assoc auxiliaryStem.toList, ← hletter, ← heq]
    simp
  rcases stem_at_underscore hseam with ⟨after', hin⟩ | ⟨-, hdigits⟩ | hin
  · exact h ⟨before, after', hin, hbefore⟩
  · have hdigit := isDigit_of_mem_toString (n := n) (c := c) (by rw [hdigits]; simp)
    rw [hc] at hdigit
    cases hdigit
  · exact foreign_toString n hin

/-- Pieces with fixed text between them. -/
theorem quiet_intercalate {ts : List String} (hopen : opensApart s = true) (hend : endsApart s = true)
    (hs : Quiet s) : Quiet (s.intercalate ts) ↔ ∀ t ∈ ts, Quiet t := by
  induction ts with
  | nil => simp
  | cons t rest ih =>
    cases rest with
    | nil => simp
    | cons t' rest =>
      rw [String.intercalate_cons_cons, quiet_between hend, quiet_open hopen, ih,
        List.forall_mem_cons (a := t)]
      simp [hs]

end

end Text

end LuaGlue
