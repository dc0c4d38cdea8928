import LuaGlue.Proofs.EnumValue.Exact

/-!
# A grammar for enumerator values

Headers write an enumerator's value in a fragment of C: terms joined by `|`; a term is an operand, or one
operand shifted by another; an operand is a literal, a minus sign and a literal, an earlier member's name, or
an expression in parentheses, with white space wherever one likes. `Spells` is that grammar, with the tree
that a text is read as, and `EnumExpr.value` is what C makes of the tree where nothing overflows. Neither
knows how `expression?` goes about it.

Parentheses, `<` and `|` stand in a text only where the tree has them, so that counting them tells of a text
what is in it (`Spells.parenDepth_eq_zero`, `Spells.count_shift`, `Spells.count_join`).
-/

set_option autoImplicit false

namespace LuaGlue

open Text

/-! ## Trees -/

/-- An expression as C reads it. -/
inductive EnumExpr where
  | literal (n : Nat)
  | negative (n : Nat)
  | name (s : String)
  | paren (e : EnumExpr)
  | shift (a b : EnumExpr)
  | join (a b : EnumExpr)
  deriving DecidableEq, Repr

namespace EnumExpr

/-- The integer an expression stands for; it has none if a name is unknown or a shift's count is not below
the 128 bits of a word. -/
def value (known : KnownItems) : EnumExpr → Option Int
  | literal n => some n
  | negative n => some (-n)
  | name s => known.lookup s
  | paren e => e.value known
  | shift a b => do
    let base ← a.value known
    let count ← b.value known
    if 0 ≤ count ∧ count < 128 then some (base * 2 ^ count.toNat) else none
  | join a b => do
    let left ← a.value known
    let right ← b.value known
    some (left.lor right)

/-- How often the text of an expression has the mark `m`. -/
def marks (m : Char) : EnumExpr → Nat
  | literal _ | negative _ | name _ => 0
  | paren e => e.marks m + ['(', ')'].count m
  | shift a b => a.marks m + b.marks m + ['<', '<'].count m
  | join a b => a.marks m + b.marks m + ['|'].count m

/-- How many shifts there are. -/
def shifts : EnumExpr → Nat
  | literal _ | negative _ | name _ => 0
  | paren e => e.shifts
  | shift a b => a.shifts + b.shifts + 1
  | join a b => a.shifts + b.shifts

/-- How many joins there are. -/
def joins : EnumExpr → Nat
  | literal _ | negative _ | name _ => 0
  | paren e => e.joins
  | shift a b => a.joins + b.joins
  | join a b => a.joins + b.joins + 1

def isParen : EnumExpr → Bool
  | paren _ => true
  | _ => false

end EnumExpr

/-! ## Texts -/

/-- The marks that join operands and enclose them. -/
def isMark (c : Char) : Bool := c == '(' || c == ')' || c == '<' || c == '|'

/-- What stands between white space and marks. -/
def IsWord (cs : List Char) : Prop :=
  cs ≠ [] ∧ ∀ c ∈ cs, isBlank c = false ∧ isMark c = false

/-- A word that is taken for neither a literal nor a minus sign. -/
def IsName (cs : List Char) : Prop :=
  IsWord cs ∧ ∀ c ∈ cs.head?, c.isDigit = false ∧ c ≠ '-'

instance (cs : List Char) : Decidable (IsWord cs) :=
  decidable_of_iff ((!cs.isEmpty && cs.all fun c => !isBlank c && !isMark c) = true) (by simp [IsWord])

instance (cs : List Char) : Decidable (IsName cs) :=
  decidable_of_iff ((decide (IsWord cs) && cs.head?.all fun c => !c.isDigit && c != '-') = true)
    (by simp [IsName, Option.all_eq_true])

/-- The levels of the grammar; an operand is a core with white space around it. -/
inductive Level where
  | core
  | operand
  | term
  | expression
  deriving DecidableEq

/-- The texts of each level, with the expressions they are read as. -/
inductive Spells : Level → List Char → EnumExpr → Prop
  | literal {cs : List Char} {n : Nat} (h : IsLiteral Unsigned cs n) : Spells .core cs (.literal n)
  | negative {gap cs : List Char} {n : Nat} (hgap : ∀ c ∈ gap, isBlank c = true)
      (h : IsLiteral Unsigned cs n) : Spells .core ('-' :: (gap ++ cs)) (.negative n)
  | name {s : String} (h : IsName s.toList) : Spells .core s.toList (.name s)
  | paren {cs : List Char} {e : EnumExpr} (h : Spells .expression cs e) :
      Spells .core ('(' :: (cs ++ [')'])) (.paren e)
  | operand {front cs back : List Char} {e : EnumExpr} (hfront : ∀ c ∈ front, isBlank c = true)
      (hback : ∀ c ∈ back, isBlank c = true) (h : Spells .core cs e) :
      Spells .operand (front ++ (cs ++ back)) e
  | one {cs : List Char} {e : EnumExpr} (h : Spells .operand cs e) : Spells .term cs e
  | shift {left right : List Char} {a b : EnumExpr} (hleft : Spells .operand left a)
      (hright : Spells .operand right b) : Spells .term (left ++ '<' :: '<' :: right) (.shift a b)
  | single {cs : List Char} {e : EnumExpr} (h : Spells .term cs e) : Spells .expression cs e
  | join {left right : List Char} {a b : EnumExpr} (hleft : Spells .expression left a)
      (hright : Spells .term right b) : Spells .expression (left ++ '|' :: right) (.join a b)

/-! ## Words -/

theorem isBlank_of_isAlphanum {c : Char} (h : c.isAlphanum = true) : isBlank c = false := by
  rw [isAlphanum_iff] at h
  simp only [isBlank, Bool.or_eq_false_iff, Bool.and_eq_false_iff, decide_eq_false_iff_not,
    beq_eq_false_iff_ne]
  omega

theorem isMark_iff {c : Char} : isMark c = true ↔ c = '(' ∨ c = ')' ∨ c = '<' ∨ c = '|' := by
  simp only [isMark, Bool.or_eq_true, beq_iff_eq, or_assoc]

theorem isMark_of_isAlphanum {c : Char} (h : c.isAlphanum = true) : isMark c = false := by
  rw [Bool.eq_false_iff, ne_eq, isMark_iff]
  rintro (rfl | rfl | rfl | rfl) <;> exact absurd h (by decide)

theorem isMark_of_isBlank {c : Char} (h : isBlank c = true) : isMark c = false := by
  rw [Bool.eq_false_iff, ne_eq, isMark_iff]
  rintro (rfl | rfl | rfl | rfl) <;> exact absurd h (by decide)

section

variable {Body : Nat → List Char → Int → Prop} {cs : List Char} {v : Int}

/-- The characters of a literal are letters and digits, and those of its body. -/
theorem IsLiteral.over {P : Char → Prop} (hword : ∀ c : Char, c.isAlphanum = true → P c)
    (hbody : ∀ base ds v, Body base ds v → ∀ c ∈ ds, P c) (h : IsLiteral Body cs v) : ∀ c ∈ cs, P c := by
  obtain ⟨core, suffix, rfl, hsuffix, h⟩ := h
  refine List.forall_mem_append.mpr ⟨?_, fun c hc => hword c ?_⟩
  · have hzero : P '0' := hword '0' (by decide)
    cases h with
    | zero => exact List.forall_mem_singleton.mpr hzero
    | decimal _ h => exact hbody _ _ _ h
    | octal h => exact List.forall_mem_cons.mpr ⟨hzero, hbody _ _ _ h⟩
    | hex hx h =>
      refine List.forall_mem_cons.mpr ⟨hzero, List.forall_mem_cons.mpr ⟨hword _ ?_, hbody _ _ _ h⟩⟩
      rcases hx with rfl | rfl <;> decide
    | binary hb h =>
      refine List.forall_mem_cons.mpr ⟨hzero, List.forall_mem_cons.mpr ⟨hword _ ?_, hbody _ _ _ h⟩⟩
      rcases hb with rfl | rfl <;> decide
  · have hc := hsuffix c hc
    simp only [isLiteralSuffix, Bool.or_eq_true, beq_iff_eq] at hc
    rcases hc with ((rfl | rfl) | rfl) | rfl <;> decide

theorem LiteralForm.imp {Body' : Nat → List Char → Int → Prop}
    (hbody : ∀ base ds v, Body base ds v → Body' base ds v) (h : LiteralForm Body cs v) :
    LiteralForm Body' cs v := by
  cases h with
  | zero => exact .zero
  | decimal hfirst h => exact .decimal hfirst (hbody _ _ _ h)
  | octal h => exact .octal (hbody _ _ _ h)
  | hex hx h => exact .hex hx (hbody _ _ _ h)
  | binary hb h => exact .binary hb (hbody _ _ _ h)

/-- The reader takes signs where C has none. -/
theorem IsLiteral.signed (h : IsLiteral Unsigned cs v) : IsLiteral Signed cs v := by
  obtain ⟨core, suffix, hcs, hsuffix, h⟩ := h
  exact ⟨core, suffix, hcs, hsuffix, h.imp fun _ _ _ => .plain⟩

theorem Unsigned.isAlphanum {base : Nat} (h : Unsigned base cs v) : ∀ c ∈ cs, c.isAlphanum = true := by
  obtain ⟨n, hn, -⟩ := h
  intro c hc
  obtain ⟨d, hd⟩ := hn.digit c hc
  exact isAlphanum_of_isHexDigit (hexDigit_of_digit? hd)

theorem IsLiteral.noMark (h : IsLiteral Signed cs v) : ∀ c ∈ cs, isMark c = false := by
  refine h.over (fun c hc => isMark_of_isAlphanum hc) fun base ds v h c hc => ?_
  rcases h.letter c hc with ⟨d, hd⟩ | rfl | rfl
  · exact isMark_of_isAlphanum (isAlphanum_of_isHexDigit (hexDigit_of_digit? hd))
  · rfl
  · rfl

/-- A literal of C begins with a digit. -/
theorem IsLiteral.head (h : IsLiteral Unsigned cs v) : ∃ c rest, cs = c :: rest ∧ c.isDigit = true := by
  have hzero : '0'.isDigit = true := by decide
  obtain ⟨core, suffix, rfl, -, h⟩ := h
  cases h with
  | zero => exact ⟨_, _, rfl, hzero⟩
  | octal | hex | binary => exact ⟨_, _, rfl, hzero⟩
  | decimal _ h =>
    obtain ⟨n, hn, -⟩ := h
    obtain ⟨c, rest, rfl⟩ := List.exists_cons_of_ne_nil hn.1
    obtain ⟨d, hd⟩ := hn.digit c List.mem_cons_self
    exact ⟨c, rest ++ suffix, rfl, isDigit_of_digit? hd⟩

theorem IsLiteral.word (h : IsLiteral Unsigned cs v) : IsWord cs := by
  have hchars : ∀ c ∈ cs, c.isAlphanum = true := h.over (fun _ hc => hc) fun _ _ _ h => h.isAlphanum
  obtain ⟨c, rest, rfl, -⟩ := h.head
  exact ⟨List.cons_ne_nil c rest, fun c hc =>
    ⟨isBlank_of_isAlphanum (hchars c hc), isMark_of_isAlphanum (hchars c hc)⟩⟩

end

theorem Spells.decimal {ds : List Char} {n : Nat} (hfirst : ds.head? ≠ some '0') (h : digits? 10 ds = some n) :
    Spells .core ds (.literal n) :=
  .literal ⟨ds, [], (List.append_nil ds).symm, List.forall_mem_nil _,
    .decimal hfirst ⟨n, digits?_iff.mp h, rfl⟩⟩

theorem trim_word {cs : List Char} (h : IsWord cs) : trim cs = cs :=
  trim_of_noBlank fun c hc => (h.2 c hc).1

/-! ## Counting marks -/

/-- How many more parentheses a text opens than it closes. -/
def parenDepth (cs : List Char) : Int := cs.count '(' - cs.count ')'

@[simp] theorem parenDepth_append (x y : List Char) :
    parenDepth (x ++ y) = parenDepth x + parenDepth y := by
  simp only [parenDepth, List.count_append]
  omega

theorem count_of_noMark {m : Char} (hm : isMark m = true) {cs : List Char}
    (h : ∀ c ∈ cs, isMark c = false) : cs.count m = 0 := by
  rw [List.count_eq_zero]
  intro hmem
  rw [h m hmem] at hm
  cases hm

theorem parenDepth_of_noMark {cs : List Char} (h : ∀ c ∈ cs, isMark c = false) : parenDepth cs = 0 := by
  rw [parenDepth, count_of_noMark (by decide) h, count_of_noMark (by decide) h]
  rfl

section

variable {level : Level} {cs : List Char} {e : EnumExpr}

theorem Spells.count {m : Char} (hm : isMark m = true) (h : Spells level cs e) :
    cs.count m = e.marks m := by
  have hblank {gap : List Char} (h : ∀ c ∈ gap, isBlank c = true) : gap.count m = 0 :=
    count_of_noMark hm fun c hc => isMark_of_isBlank (h c hc)
  have hword {cs : List Char} (h : IsWord cs) : cs.count m = 0 :=
    count_of_noMark hm fun c hc => (h.2 c hc).2
  induction h with
  | literal h => exact hword h.word
  | negative hgap h =>
    have hminus : ['-'].count m = 0 := count_of_noMark hm (List.forall_mem_singleton.mpr (by decide))
    rw [← List.singleton_append, List.count_append, List.count_append, hminus, hblank hgap, hword h.word]
    rfl
  | name h => exact hword h.1
  | @paren cs e h ih =>
    rw [EnumExpr.marks, ← ih]
    simp only [List.count_cons, List.count_append, List.count_nil]
    omega
  | operand hfront hback h ih =>
    rw [List.count_append, List.count_append, hblank hfront, hblank hback, ih]
    omega
  | one h ih | single h ih => exact ih
  | @shift left right a b hleft hright ihleft ihright =>
    have hsplit : left ++ '<' :: '<' :: right = left ++ (['<', '<'] ++ right) := rfl
    rw [EnumExpr.marks, hsplit, List.count_append, List.count_append, ihleft, ihright]
    omega
  | @join left right a b hleft hright ihleft ihright =>
    have hsplit : left ++ '|' :: right = left ++ (['|'] ++ right) := rfl
    rw [EnumExpr.marks, hsplit, List.count_append, List.count_append, ihleft, ihright]
    omega

/-- Parentheses come in pairs. -/
theorem Spells.parenDepth_eq_zero (h : Spells level cs e) : parenDepth cs = 0 := by
  have hpairs : e.marks '(' = e.marks ')' := by
    clear h
    induction e with
    | literal | negative | name => rfl
    | paren e ih => simpa [EnumExpr.marks] using ih
    | shift a b iha ihb | join a b iha ihb => simp [EnumExpr.marks, iha, ihb]
  rw [parenDepth, h.count (by decide), h.count (by decide), hpairs]
  omega

theorem Spells.count_shift (h : Spells level cs e) : cs.count '<' = 2 * e.shifts := by
  rw [h.count (by decide)]
  clear h
  induction e with
  | literal | negative | name => rfl
  | paren e ih => simpa [EnumExpr.marks, EnumExpr.shifts] using ih
  | shift a b iha ihb | join a b iha ihb =>
    simp [EnumExpr.marks, EnumExpr.shifts, iha, ihb]
    omega

theorem Spells.count_join (h : Spells level cs e) : cs.count '|' = e.joins := by
  rw [h.count (by decide)]
  clear h
  induction e with
  | literal | negative | name => rfl
  | paren e ih => simpa [EnumExpr.marks, EnumExpr.joins] using ih
  | shift a b iha ihb | join a b iha ihb => simp [EnumExpr.marks, EnumExpr.joins, iha, ihb]

end

end LuaGlue
