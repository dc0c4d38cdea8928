import Mathlib.Data.Nat.Digits.Defs
import LuaGlue.Proofs.CType.Brackets
import LuaGlue.Proofs.EnumValue.Wide

/-!
# Integer literals

What a literal's text says, without a bound on its value: digits in a base (`DigitsOf`), told by the
beginning of the literal (`LiteralForm`), and behind them a suffix that says nothing of the value
(`IsLiteral`). The reader takes a sign between the beginning and the digits as well (`Signed`), which C does
not have (`Unsigned`). It reads exactly these texts, and refuses one of them only if its value does not fit
(`literal?_eq`, `unbounded?_iff`).
-/

set_option autoImplicit false

namespace LuaGlue

open Text

/-! ## Digits -/

/-- Digits of a base and the number they stand for; the last one counts ones. -/
def DigitsOf (base : Nat) (cs : List Char) (n : Nat) : Prop :=
  cs ≠ [] ∧ ∃ ds : List Nat, cs.map (digit? base) = ds.map some ∧ n = Nat.ofDigits base ds.reverse

theorem foldlM_digit?_iff {base : Nat} {cs : List Char} : ∀ {n : Nat},
    cs.foldlM (fun value c => (digit? base c).map (value * base + ·)) 0 = some n ↔
      ∃ ds : List Nat, cs.map (digit? base) = ds.map some ∧ n = Nat.ofDigits base ds.reverse := by
  induction cs using List.reverseRecOn with
  | nil =>
    intro n
    constructor
    · intro h
      exact ⟨[], rfl, (Option.some.inj h).symm⟩
    · rintro ⟨ds, hds, rfl⟩
      obtain rfl := List.map_eq_nil_iff.mp hds.symm
      rfl
  | append_singleton cs c ih =>
    intro n
    rw [List.foldlM_append]
    constructor
    · intro h
      obtain ⟨m, hm, h⟩ := Option.bind_eq_some_iff.mp h
      obtain ⟨d, hd, hn⟩ : ∃ d, digit? base c = some d ∧ m * base + d = n := by simpa using h
      obtain ⟨ds, hds, rfl⟩ := ih.mp hm
      refine ⟨ds ++ [d], by simp [hds, hd], ?_⟩
      rw [← hn, List.reverse_append, List.reverse_singleton, List.singleton_append, Nat.ofDigits_cons,
        Nat.mul_comm, Nat.add_comm]
    · rintro ⟨ds, hds, rfl⟩
      cases ds using List.reverseRecOn with
      | nil => simp at hds
      | append_singleton ds d =>
        rw [List.map_append, List.map_append] at hds
        obtain ⟨hfront, hlast⟩ := List.append_inj' hds rfl
        have hd : digit? base c = some d := by simpa using hlast
        have hm := ih.mpr ⟨ds, hfront, rfl⟩
        refine Option.bind_eq_some_iff.mpr ⟨_, hm, ?_⟩
        rw [List.foldlM_cons, hd, List.reverse_append, List.reverse_singleton,
          List.singleton_append, Nat.ofDigits_cons, Nat.add_comm,
          Nat.mul_comm]
        rfl

theorem digits?_iff {base : Nat} {cs : List Char} {n : Nat} :
    digits? base cs = some n ↔ DigitsOf base cs n := by
  cases cs with
  | nil => simp [digits?, DigitsOf]
  | cons c cs => exact foldlM_digit?_iff.trans (and_iff_right (List.cons_ne_nil c cs)).symm

/-- The digits that there are, in any base up to sixteen. -/
def isHexDigit (c : Char) : Bool := c.isDigit || ('a' ≤ c && c ≤ 'f') || ('A' ≤ c && c ≤ 'F')

theorem hexDigit_of_digit? {base d : Nat} {c : Char} (h : digit? base c = some d) :
    isHexDigit c = true := by
  obtain ⟨hvalue, -⟩ := Option.filter_eq_some_iff.mp h
  unfold isHexDigit
  split at hvalue
  · simp_all
  · split at hvalue
    · simp_all
    · split at hvalue
      · simp_all
      · cases hvalue

theorem isAlphanum_iff {c : Char} : c.isAlphanum = true ↔
    ((65 ≤ c.toNat ∧ c.toNat ≤ 90) ∨ (97 ≤ c.toNat ∧ c.toNat ≤ 122)) ∨ (48 ≤ c.toNat ∧ c.toNat ≤ 57) := by
  have hupper : c.isUpper = true ↔ 65 ≤ c.toNat ∧ c.toNat ≤ 90 := decide_eq_true_iff
  have hlower : c.isLower = true ↔ 97 ≤ c.toNat ∧ c.toNat ≤ 122 := by
    change (decide _ && decide _) = true ↔ _
    rw [Bool.and_eq_true, decide_eq_true_iff, decide_eq_true_iff]
    exact Iff.rfl
  change ((c.isUpper || c.isLower) || c.isDigit) = true ↔ _
  rw [Bool.or_eq_true, Bool.or_eq_true, hupper, hlower, Char.isDigit_iff_toNat]
  exact Iff.rfl

theorem isAlphanum_of_isHexDigit {c : Char} (h : isHexDigit c = true) : c.isAlphanum = true := by
  simp only [isHexDigit, Bool.or_eq_true, Bool.and_eq_true, decide_eq_true_eq,
    Char.isDigit_iff_toNat] at h
  have hrange : ((48 ≤ c.toNat ∧ c.toNat ≤ 57) ∨ (97 ≤ c.toNat ∧ c.toNat ≤ 102)) ∨
      (65 ≤ c.toNat ∧ c.toNat ≤ 70) := h
  rw [isAlphanum_iff]
  omega

theorem DigitsOf.digit {base n : Nat} {cs : List Char} (h : DigitsOf base cs n) :
    ∀ c ∈ cs, ∃ d, digit? base c = some d := by
  obtain ⟨-, ds, hds, -⟩ := h
  intro c hc
  have hmem : digit? base c ∈ ds.map some := hds ▸ List.mem_map_of_mem hc
  obtain ⟨d, -, hd⟩ := List.mem_map.mp hmem
  exact ⟨d, hd.symm⟩

/-! ## Bodies of literals -/

/-- Digits alone. -/
def Unsigned (base : Nat) (cs : List Char) (v : Int) : Prop :=
  ∃ n : Nat, DigitsOf base cs n ∧ v = n

/-- Digits that a sign may stand in front of. -/
inductive Signed (base : Nat) : List Char → Int → Prop
  | plain {cs : List Char} {v : Int} (h : Unsigned base cs v) : Signed base cs v
  | plus {cs : List Char} {v : Int} (h : Unsigned base cs v) : Signed base ('+' :: cs) v
  | minus {cs : List Char} {v : Int} (h : Unsigned base cs v) : Signed base ('-' :: cs) (-v)

/-- The integer that digits stand for, with an optional sign and without a bound. -/
def signed? (base : Nat) (cs : List Char) : Option Int :=
  match cs with
  | '+' :: rest => (digits? base rest).map Int.ofNat
  | '-' :: rest => (digits? base rest).map fun n : Nat => -(n : Int)
  | _ => (digits? base cs).map Int.ofNat

theorem wide?_eq (base : Nat) (cs : List Char) :
    wide? base cs = (signed? base cs).filter isWide := by
  unfold signed?
  split
  · rfl
  · rename_i rest
    change (((digits? base rest).bind fun n => some (n : Int)).map (- ·)).filter isWide = _
    cases digits? base rest <;> rfl
  · rename_i hplus hminus
    unfold wide?
    dsimp only
    split
    · exact absurd rfl (hplus _)
    · exact absurd rfl (hminus _)
    · rfl

theorem signed?_iff {base : Nat} {cs : List Char} {v : Int} :
    signed? base cs = some v ↔ Signed base cs v := by
  constructor
  · intro h
    unfold signed? at h
    split at h
    · obtain ⟨n, hn, rfl⟩ := Option.map_eq_some_iff.mp h
      exact .plus ⟨n, digits?_iff.mp hn, rfl⟩
    · obtain ⟨n, hn, rfl⟩ := Option.map_eq_some_iff.mp h
      exact .minus ⟨n, digits?_iff.mp hn, rfl⟩
    · obtain ⟨n, hn, rfl⟩ := Option.map_eq_some_iff.mp h
      exact .plain ⟨n, digits?_iff.mp hn, rfl⟩
  · intro h
    cases h with
    | plain h =>
      obtain ⟨n, hn, rfl⟩ := h
      have hsign (s : Char) (hs : s.isAlphanum = false) : ∀ rest, cs ≠ s :: rest := by
        rintro rest rfl
        obtain ⟨d, hd⟩ := hn.digit s List.mem_cons_self
        rw [isAlphanum_of_isHexDigit (hexDigit_of_digit? hd)] at hs
        cases hs
      unfold signed?
      split
      · exact absurd rfl (hsign '+' (by decide) _)
      · exact absurd rfl (hsign '-' (by decide) _)
      · rw [digits?_iff.mpr hn]
        rfl
    | plus h =>
      obtain ⟨n, hn, rfl⟩ := h
      simp [signed?, digits?_iff.mpr hn]
    | minus h =>
      obtain ⟨n, hn, rfl⟩ := h
      simp [signed?, digits?_iff.mpr hn]

theorem Signed.ne_nil {base : Nat} {cs : List Char} {v : Int} (h : Signed base cs v) : cs ≠ [] := by
  cases h with
  | plain h =>
    obtain ⟨n, hn, -⟩ := h
    exact hn.1
  | plus | minus => exact List.cons_ne_nil _ _

/-- Every character is a digit or, at the front, a sign. -/
theorem Signed.letter {base : Nat} {cs : List Char} {v : Int} (h : Signed base cs v) :
    ∀ c ∈ cs, (∃ d, digit? base c = some d) ∨ c = '+' ∨ c = '-' := by
  cases h with
  | plain h =>
    obtain ⟨n, hn, -⟩ := h
    exact fun c hc => .inl (hn.digit c hc)
  | plus h =>
    obtain ⟨n, hn, -⟩ := h
    exact List.forall_mem_cons.mpr ⟨.inr (.inl rfl), fun c hc => .inl (hn.digit c hc)⟩
  | minus h =>
    obtain ⟨n, hn, -⟩ := h
    exact List.forall_mem_cons.mpr ⟨.inr (.inr rfl), fun c hc => .inl (hn.digit c hc)⟩

/-! ## Literals -/

/-- A literal without its suffix; `Body` says what stands behind the part that tells the base. -/
inductive LiteralForm (Body : Nat → List Char → Int → Prop) : List Char → Int → Prop
  | zero : LiteralForm Body ['0'] 0
  | decimal {ds : List Char} {v : Int} (hfirst : ds.head? ≠ some '0') (h : Body 10 ds v) :
      LiteralForm Body ds v
  | octal {ds : List Char} {v : Int} (h : Body 8 ds v) : LiteralForm Body ('0' :: ds) v
  | hex {x : Char} {ds : List Char} {v : Int} (hx : x = 'x' ∨ x = 'X') (h : Body 16 ds v) :
      LiteralForm Body ('0' :: x :: ds) v
  | binary {b : Char} {ds : List Char} {v : Int} (hb : b = 'b' ∨ b = 'B') (h : Body 2 ds v) :
      LiteralForm Body ('0' :: b :: ds) v

/-- A literal with any suffix. -/
def IsLiteral (Body : Nat → List Char → Int → Prop) (cs : List Char) (v : Int) : Prop :=
  ∃ core suffix, cs = core ++ suffix ∧ (∀ c ∈ suffix, isLiteralSuffix c = true) ∧
    LiteralForm Body core v

/-- The value of a literal without its suffix, however large. -/
def core? (cs : List Char) : Option Int :=
  match cs with
  | '0' :: 'x' :: hex | '0' :: 'X' :: hex => signed? 16 hex
  | '0' :: 'b' :: binary | '0' :: 'B' :: binary => signed? 2 binary
  | '0' :: c :: octal => signed? 8 (c :: octal)
  | decimal => signed? 10 decimal

/-- The value of a literal, however large. -/
def unbounded? (cs : List Char) : Option Int := core? (dropEndWhile isLiteralSuffix cs)

/-- **A literal is refused for its size only if its value does not fit.** -/
theorem literal?_eq (cs : List Char) : literal? cs = (unbounded? cs).filter isWide := by
  unfold literal? unbounded?
  generalize dropEndWhile isLiteralSuffix cs = core
  unfold core?
  split <;> simp only [wide?_eq]

theorem core?_iff {cs : List Char} {v : Int} : core? cs = some v ↔ LiteralForm Signed cs v := by
  constructor
  · intro h
    unfold core? at h
    split at h
    · exact .hex (.inl rfl) (signed?_iff.mp h)
    · exact .hex (.inr rfl) (signed?_iff.mp h)
    · exact .binary (.inl rfl) (signed?_iff.mp h)
    · exact .binary (.inr rfl) (signed?_iff.mp h)
    · exact .octal (signed?_iff.mp h)
    · rename_i hother
      cases cs with
      | nil => exact .decimal (by simp) (signed?_iff.mp h)
      | cons c cs =>
        by_cases hc : c = '0'
        · subst hc
          cases cs with
          | nil =>
            have hzero : signed? 10 ['0'] = some 0 := by decide
            rw [hzero] at h
            obtain rfl := Option.some.inj h
            exact .zero
          | cons d cs => exact absurd rfl (hother d cs)
        · exact .decimal (by simpa using hc) (signed?_iff.mp h)
  · intro h
    cases h with
    | zero => decide
    | decimal hfirst h =>
      unfold core?
      split
      any_goals exact absurd rfl hfirst
      exact signed?_iff.mpr h
    | @octal ds v h =>
      have hmark (x : Char) (hx : digit? 8 x = none) (hplus : x ≠ '+') (hminus : x ≠ '-') :
          ∀ rest, ds ≠ x :: rest := by
        rintro rest rfl
        rcases h.letter x List.mem_cons_self with ⟨d, hd⟩ | rfl | rfl
        · rw [hx] at hd
          cases hd
        · exact hplus rfl
        · exact hminus rfl
      cases ds with
      | nil => exact absurd rfl h.ne_nil
      | cons c ds =>
        unfold core?
        split
        · rename_i heq
          exact absurd (List.cons.inj heq).2 (hmark 'x' (by decide) (by decide) (by decide) _)
        · rename_i heq
          exact absurd (List.cons.inj heq).2 (hmark 'X' (by decide) (by decide) (by decide) _)
        · rename_i heq
          exact absurd (List.cons.inj heq).2 (hmark 'b' (by decide) (by decide) (by decide) _)
        · rename_i heq
          exact absurd (List.cons.inj heq).2 (hmark 'B' (by decide) (by decide) (by decide) _)
        · rename_i heq
          rw [← (List.cons.inj heq).2]
          exact signed?_iff.mpr h
        · rename_i hother
          exact absurd rfl (hother c ds)
    | hex hx h => rcases hx with rfl | rfl <;> exact signed?_iff.mpr h
    | binary hb h => rcases hb with rfl | rfl <;> exact signed?_iff.mpr h

theorem dropEndWhile_append {p : Char → Bool} {a b : List Char} (h : ∀ c ∈ b, p c = true) :
    dropEndWhile p (a ++ b) = dropEndWhile p a := by
  induction b using List.reverseRecOn with
  | nil => rw [List.append_nil]
  | append_singleton b c ih =>
    have hc := h c (List.mem_append_right b (List.mem_singleton_self c))
    rw [← List.append_assoc, dropEndWhile_eq, List.rdropWhile_concat_pos p _ c hc, ← dropEndWhile_eq]
    exact ih fun d hd => h d (List.mem_append_left _ hd)

/-- A literal without its suffix ends in no letter of a suffix. -/
theorem LiteralForm.last {cs : List Char} {v : Int} (h : LiteralForm Signed cs v) :
    ∀ c ∈ cs.getLast?, isLiteralSuffix c = false := by
  have hbody {base : Nat} {ds : List Char} {v : Int} (h : Signed base ds v) :
      ∀ c ∈ ds.getLast?, isLiteralSuffix c = false := by
    intro c hc
    rw [Bool.eq_false_iff]
    intro hsuffix
    simp only [isLiteralSuffix, Bool.or_eq_true, beq_iff_eq] at hsuffix
    rcases h.letter c (List.mem_of_getLast? hc) with ⟨d, hd⟩ | rfl | rfl
    · exact absurd (hexDigit_of_digit? hd) (by rcases hsuffix with ((rfl | rfl) | rfl) | rfl <;> decide)
    · simp at hsuffix
    · simp at hsuffix
  cases h with
  | zero =>
    intro c hc
    obtain rfl := Option.some.inj hc
    decide
  | decimal _ h => exact hbody h
  | octal h =>
    rw [← List.singleton_append, List.getLast?_append_of_ne_nil _ h.ne_nil]
    exact hbody h
  | @hex x ds v hx h =>
    rw [← List.singleton_append, ← List.singleton_append (x := x), ← List.append_assoc,
      List.getLast?_append_of_ne_nil _ h.ne_nil]
    exact hbody h
  | @binary b ds v hb h =>
    rw [← List.singleton_append, ← List.singleton_append (x := b), ← List.append_assoc,
      List.getLast?_append_of_ne_nil _ h.ne_nil]
    exact hbody h

theorem unbounded?_iff {cs : List Char} {v : Int} :
    unbounded? cs = some v ↔ IsLiteral Signed cs v := by
  rw [unbounded?, core?_iff]
  constructor
  · intro h
    refine ⟨_, cs.rtakeWhile isLiteralSuffix, ?_, fun c hc => List.mem_rtakeWhile_imp hc, h⟩
    rw [dropEndWhile_eq, List.rdropWhile_append_rtakeWhile]
  · rintro ⟨core, suffix, rfl, hsuffix, h⟩
    have hcore : dropEndWhile isLiteralSuffix (core ++ suffix) = core := by
      rw [dropEndWhile_append hsuffix, dropEndWhile_of_last h.last]
    rwa [hcore]

end LuaGlue
