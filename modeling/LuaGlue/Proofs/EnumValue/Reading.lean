import LuaGlue.Proofs.EnumValue.Pieces

/-!
# Which expressions are read

The evaluator reads an expression of the grammar if its parentheses do not get in the way of the cuts: a `|`
stands in no parentheses, a shifted operand and its count are literals or names, and not both of them are in
parentheses (`EnumExpr.isPlain`). Such an expression yields its value's lowest 128 bits, unless a literal
in it does not fit; every other one is refused (`Spells.expression?_eq`).
-/

set_option autoImplicit false

namespace LuaGlue

open Text

/-! ## Plain expressions -/

namespace EnumExpr

/-- A literal or a name, with parentheses around it or without. -/
def isAtom : EnumExpr → Bool
  | literal _ | negative _ | name _ => true
  | paren e => e.isAtom
  | shift _ _ | join _ _ => false

/-- A term that is cut where its shift is; with parentheses around both operands it would be taken for a
term in parentheses. -/
def isPlainTerm : EnumExpr → Bool
  | literal _ | negative _ | name _ => true
  | paren e => e.isPlainTerm
  | shift a b => a.isAtom && b.isAtom && !(a.isParen && b.isParen)
  | join _ _ => false

/-- An expression that is cut where its joins are. -/
def isPlain : EnumExpr → Bool
  | join a b => a.isPlain && b.isPlainTerm
  | e => e.isPlainTerm

/-- The literals of an expression fit, before their sign is taken into account. -/
def literalsFit : EnumExpr → Bool
  | literal n | negative n => isWide n
  | name _ => true
  | paren e => e.literalsFit
  | shift a b | join a b => a.literalsFit && b.literalsFit

/-- The evaluator reads the expression. -/
def isReadable (e : EnumExpr) : Bool := e.isPlain && e.literalsFit

theorem exists_paren {e : EnumExpr} (h : e.isParen = true) : ∃ a, e = paren a := by
  cases e with
  | paren a => exact ⟨a, rfl⟩
  | literal | negative | name | shift | join => cases h

theorem isAtom_of_counts {e : EnumExpr} (hshifts : e.shifts = 0) (hjoins : e.joins = 0) :
    e.isAtom = true := by
  induction e with
  | literal | negative | name => rfl
  | paren e ih => exact ih hshifts hjoins
  | shift => exact absurd hshifts (Nat.succ_ne_zero _)
  | join => exact absurd hjoins (Nat.succ_ne_zero _)

theorem shifts_of_isAtom {e : EnumExpr} (h : e.isAtom = true) : e.shifts = 0 := by
  induction e with
  | literal | negative | name => rfl
  | paren e ih => exact ih h
  | shift | join => cases h

theorem joins_of_isAtom {e : EnumExpr} (h : e.isAtom = true) : e.joins = 0 := by
  induction e with
  | literal | negative | name => rfl
  | paren e ih => exact ih h
  | shift | join => cases h

theorem joins_of_isPlainTerm {e : EnumExpr} (h : e.isPlainTerm = true) : e.joins = 0 := by
  induction e with
  | literal | negative | name => rfl
  | paren e ih => exact ih h
  | shift a b =>
    simp only [isPlainTerm, Bool.and_eq_true] at h
    rw [joins, joins_of_isAtom h.1.1, joins_of_isAtom h.1.2]
  | join => cases h

theorem isWide_of_isAtom {known : KnownItems} (hfit : known.Fit) {e : EnumExpr} {v : Int}
    (hatom : e.isAtom = true) (hliterals : e.literalsFit = true) (hv : e.value known = some v) :
    isWide v = true := by
  induction e with
  | literal n =>
    obtain rfl := Option.some.inj hv
    exact hliterals
  | negative n =>
    obtain rfl := Option.some.inj hv
    rw [literalsFit, isWide_iff] at hliterals
    rw [isWide_iff]
    omega
  | name s =>
    obtain ⟨before, after, rfl, -⟩ := List.lookup_eq_some_iff.mp hv
    exact hfit (s, v) (by simp)
  | paren e ih => exact ih hatom hliterals hv
  | shift | join => cases hatom

end EnumExpr

/-! ## Operands -/

section

variable {known : KnownItems} {cs : List Char} {e : EnumExpr} {v : Int}

theorem literal?_of_unsigned (h : IsLiteral Unsigned cs v) :
    literal? cs = if isWide v then some v else none := by
  rw [literal?_eq, unbounded?_iff.mpr h.signed, Option.filter_some]

theorem operand?_literal (hnamed : known.Named) (h : IsLiteral Unsigned cs v) :
    operand? known cs = if isWide v then some v else none := by
  obtain ⟨c, rest, rfl, hdigit⟩ := h.head
  have hunknown : known.lookup (String.ofList (c :: rest)) = none := by
    refine hnamed.lookup_eq_none fun hname => ?_
    rw [(hname.2 c rfl).1] at hdigit
    cases hdigit
  unfold operand?
  rw [hunknown]
  dsimp only
  split
  · rename_i heq
    obtain ⟨rfl, -⟩ := List.cons.inj heq
    exact absurd hdigit (by decide)
  · exact literal?_of_unsigned h

theorem operand?_negative (hnamed : known.Named) {gap : List Char} (hgap : ∀ c ∈ gap, isBlank c = true)
    {n : Nat} (h : IsLiteral Unsigned cs n) :
    operand? known ('-' :: (gap ++ cs)) = if isWide n then some (-(n : Int)) else none := by
  have hunknown : known.lookup (String.ofList ('-' :: (gap ++ cs))) = none :=
    hnamed.lookup_eq_none fun hname => (hname.2 '-' rfl).2 rfl
  have htrim : trim (gap ++ cs) = cs := by
    have hskip : trim (gap ++ (cs ++ [])) = trim cs := trim_blanks hgap (List.forall_mem_nil _)
    rwa [List.append_nil, trim_word h.word] at hskip
  unfold operand?
  rw [hunknown]
  change ((literal? (trim (gap ++ cs))).map (- ·)).filter isWide = _
  rw [htrim, literal?_of_unsigned h]
  by_cases hwide : isWide (n : Int) = true
  · have hneg : isWide (-(n : Int)) = true := by
      rw [isWide_iff] at hwide ⊢
      omega
    simp [hwide, hneg]
  · simp [hwide]

theorem operand?_name {s : String} (h : known.lookup s = some v) : operand? known s.toList = some v := by
  unfold operand?
  rw [String.ofList_toList, h]

/-- A core has no white space at its ends. -/
theorem Spells.core_edges (h : Spells .core cs e) : cs ≠ [] ∧ (∀ c ∈ cs.head?, isBlank c = false) ∧
    (∀ c ∈ cs.getLast?, isBlank c = false) := by
  have hword {cs : List Char} (h : IsWord cs) : cs ≠ [] ∧ (∀ c ∈ cs.head?, isBlank c = false) ∧
      (∀ c ∈ cs.getLast?, isBlank c = false) :=
    ⟨h.1, fun c hc => (h.2 c (List.mem_of_mem_head? hc)).1, fun c hc => (h.2 c (List.mem_of_getLast? hc)).1⟩
  cases h with
  | literal h => exact hword h.word
  | name h => exact hword h.1
  | @negative gap cs n hgap h =>
    refine ⟨List.cons_ne_nil _ _, fun c hc => ?_, ?_⟩
    · obtain rfl := Option.some.inj hc
      decide
    · rw [← List.cons_append, List.getLast?_append_of_ne_nil _ h.word.1]
      exact (hword h.word).2.2
  | @paren cs e h =>
    refine ⟨List.cons_ne_nil _ _, fun c hc => ?_, fun c hc => ?_⟩
    · obtain rfl := Option.some.inj hc
      decide
    · rw [← List.cons_append, List.getLast?_concat] at hc
      obtain rfl := Option.some.inj hc
      decide

theorem Spells.trim_core (h : Spells .core cs e) : trim cs = cs :=
  trim_of_ends h.core_edges.2.1 h.core_edges.2.2

/-- Neither end of a core is a parenthesis, unless it is an expression in parentheses. -/
theorem Spells.core_ends (h : Spells .core cs e) (hparen : e.isParen = false) :
    cs.head? ≠ some '(' ∧ cs.getLast? ≠ some ')' := by
  have hword {cs : List Char} (h : IsWord cs) : cs.head? ≠ some '(' ∧ cs.getLast? ≠ some ')' := by
    refine ⟨fun hc => ?_, fun hc => ?_⟩
    · exact absurd (h.2 _ (List.mem_of_mem_head? hc)).2 (by decide)
    · exact absurd (h.2 _ (List.mem_of_getLast? hc)).2 (by decide)
  cases h with
  | literal h => exact hword h.word
  | name h => exact hword h.1
  | @negative gap cs n hgap h =>
    refine ⟨by simp, ?_⟩
    rw [← List.cons_append, List.getLast?_append_of_ne_nil _ h.word.1]
    exact (hword h.word).2
  | paren h => cases hparen

theorem Spells.stripParens_core (h : Spells .core cs e) (hparen : e.isParen = false) :
    stripParens (trim cs) = cs := by
  rw [h.trim_core, stripParens_bare]
  rintro inner rfl
  exact (h.core_ends hparen).1 rfl

/-- **A literal or a name is read in whatever parentheses and white space.** -/
theorem Spells.operand?_eq (hnamed : known.Named) {level : Level} (h : Spells level cs e)
    (hatom : e.isAtom = true) (hv : e.value known = some v) :
    operand? known (stripParens (trim cs)) = if e.literalsFit then some v else none := by
  induction h with
  | literal h =>
    obtain rfl := Option.some.inj hv
    rw [(Spells.literal h).stripParens_core rfl]
    exact operand?_literal hnamed h
  | negative hgap h =>
    obtain rfl := Option.some.inj hv
    rw [(Spells.negative hgap h).stripParens_core rfl]
    exact operand?_negative hnamed hgap h
  | name h =>
    rw [(Spells.name h).stripParens_core rfl]
    exact operand?_name hv
  | paren h ih =>
    rw [(Spells.paren h).trim_core, stripParens_paren]
    exact ih hatom hv
  | operand hfront hback h ih =>
    rw [trim_blanks hfront hback]
    exact ih hatom hv
  | one h ih | single h ih => exact ih hatom hv
  | shift | join => cases hatom

/-! ## Terms -/

theorem term?_congr {x y : List Char} (h : stripParens (trim x) = stripParens (trim y)) :
    term? known x = term? known y := by
  unfold term?
  rw [h]

theorem term?_whole (h : cutAt? ['<', '<'] (stripParens (trim cs)) = none) :
    term? known cs = operand? known (stripParens (trim cs)) := by
  unfold term?
  dsimp only
  rw [h]

theorem term?_cut {left right : List Char}
    (h : cutAt? ['<', '<'] (stripParens (trim cs)) = some (left, right)) :
    term? known cs = (operand? known (stripParens (trim left))).bind fun value =>
      (operand? known (stripParens (trim right))).bind (wideShift? value) := by
  unfold term?
  dsimp only
  rw [h]
  rfl

theorem term?_blanks {front back : List Char} (hfront : ∀ c ∈ front, isBlank c = true)
    (hback : ∀ c ∈ back, isBlank c = true) : term? known (front ++ (cs ++ back)) = term? known cs :=
  term?_congr (by rw [trim_blanks hfront hback])

theorem term?_paren (h : Spells .expression cs e) :
    term? known ('(' :: (cs ++ [')'])) = term? known cs :=
  term?_congr (by rw [(Spells.paren h).trim_core, stripParens_paren])

theorem Spells.term?_of_isAtom (hnamed : known.Named) (hfit : known.Fit) {level : Level}
    (h : Spells level cs e) (hatom : e.isAtom = true) (hv : e.value known = some v) :
    term? known cs = if e.literalsFit then some (wrap v) else none := by
  have hnoShift : (stripParens (trim cs)).count '<' = 0 := by
    rw [count_shift_stripParens, count_trim (by decide), h.count_shift, EnumExpr.shifts_of_isAtom hatom]
  rw [term?_whole (cutAt?_none (List.count_eq_zero.mp hnoShift)), h.operand?_eq hnamed hatom hv]
  split
  · rename_i hliterals
    rw [wrap_of_isWide (EnumExpr.isWide_of_isAtom hfit hatom hliterals hv)]
  · rfl

theorem head?_shift {x : List Char} (hx : x ≠ []) (gap right : List Char) :
    ((x ++ gap) ++ '<' :: '<' :: right).head? = x.head? := by
  rw [List.append_assoc, List.head?_append_of_ne_nil _ hx]

theorem getLast?_shift {y : List Char} (hy : y ≠ []) (left gap : List Char) :
    (left ++ '<' :: '<' :: (gap ++ y)).getLast? = y.getLast? := by
  have hend : left ++ '<' :: '<' :: (gap ++ y) = (left ++ '<' :: '<' :: gap) ++ y := by simp
  rw [hend, List.getLast?_append_of_ne_nil _ hy]

/-- A shift without the white space around it. -/
theorem Spells.trim_shift {left right : List Char} {a b : EnumExpr} (hleft : Spells .operand left a)
    (hright : Spells .operand right b) : ∃ x gap gap' y, Spells .core x a ∧ Spells .core y b ∧
      (∀ c ∈ gap, isBlank c = true) ∧ (∀ c ∈ gap', isBlank c = true) ∧
      trim (left ++ '<' :: '<' :: right) = (x ++ gap) ++ '<' :: '<' :: (gap' ++ y) := by
  cases hleft with
  | @operand front x gap _ hfront hgap hx =>
    cases hright with
    | @operand gap' y back _ hgap' hback hy =>
      refine ⟨x, gap, gap', y, hx, hy, hgap, hgap', ?_⟩
      have hsplit : front ++ (x ++ gap) ++ '<' :: '<' :: (gap' ++ (y ++ back)) =
          front ++ (((x ++ gap) ++ '<' :: '<' :: (gap' ++ y)) ++ back) := by simp
      rw [hsplit, trim_blanks hfront hback]
      refine trim_of_ends ?_ ?_
      · rw [head?_shift hx.core_edges.1]
        exact hx.core_edges.2.1
      · rw [getLast?_shift hy.core_edges.1]
        exact hy.core_edges.2.2

/-- A shift is not enclosed if one of its operands is not. -/
theorem Spells.shift_bare {x gap gap' y : List Char} {a b : EnumExpr} (hx : Spells .core x a)
    (hy : Spells .core y b) (hparen : a.isParen = false ∨ b.isParen = false) :
    stripParens ((x ++ gap) ++ '<' :: '<' :: (gap' ++ y)) = (x ++ gap) ++ '<' :: '<' :: (gap' ++ y) := by
  refine stripParens_bare fun inner hinner => ?_
  rcases hparen with hparen | hparen
  · have hhead := congrArg List.head? hinner
    rw [head?_shift hx.core_edges.1] at hhead
    exact (hx.core_ends hparen).1 hhead
  · have hlast := congrArg List.getLast? hinner
    rw [getLast?_shift hy.core_edges.1, ← List.cons_append, List.getLast?_concat] at hlast
    exact (hy.core_ends hparen).2 hlast

/-- A shift of two literals or names, not both in parentheses. -/
theorem Spells.term?_shift (hnamed : known.Named) {left right : List Char} {a b : EnumExpr}
    (hleft : Spells .operand left a) (hright : Spells .operand right b)
    (hplain : (EnumExpr.shift a b).isPlainTerm = true) (hv : (EnumExpr.shift a b).value known = some v) :
    term? known (left ++ '<' :: '<' :: right) =
      if (EnumExpr.shift a b).literalsFit then some (wrap v) else none := by
  simp only [EnumExpr.isPlainTerm, Bool.and_eq_true, Bool.not_eq_true', Bool.and_eq_false_iff] at hplain
  obtain ⟨⟨hatom, hatom'⟩, hparen⟩ := hplain
  obtain ⟨base, hbase, hv⟩ := Option.bind_eq_some_iff.mp hv
  obtain ⟨count, hcount, hv⟩ := Option.bind_eq_some_iff.mp hv
  obtain ⟨hrange, hv⟩ := Option.ite_none_right_eq_some.mp hv
  obtain rfl := Option.some.inj hv
  obtain ⟨x, gap, gap', y, hx, hy, hgap, hgap', htrim⟩ := hleft.trim_shift hright
  have hx' := Spells.operand (List.forall_mem_nil _) hgap hx
  have hy' := Spells.operand hgap' (List.forall_mem_nil _) hy
  rw [List.nil_append] at hx'
  rw [List.append_nil] at hy'
  have hnoShift : '<' ∉ x ++ gap := by
    rw [← List.count_eq_zero, hx'.count_shift, EnumExpr.shifts_of_isAtom hatom]
  have hcut : cutAt? ['<', '<'] (stripParens (trim (left ++ '<' :: '<' :: right))) =
      some (x ++ gap, gap' ++ y) := by rw [htrim, hx.shift_bare hy hparen, cutAt?_first hnoShift]
  rw [term?_cut hcut, hx'.operand?_eq hnamed hatom hbase, hy'.operand?_eq hnamed hatom' hcount]
  cases hfits : a.literalsFit <;> cases hfits' : b.literalsFit <;>
    simp [EnumExpr.literalsFit, hfits, hfits', wideShift?_eq hrange.1 hrange.2]

/-- **A plain term is read**, and yields the lowest bits of its value, if its literals fit. -/
theorem Spells.term?_eq (hnamed : known.Named) (hfit : known.Fit) {level : Level}
    (h : Spells level cs e) (hplain : e.isPlainTerm = true) (hv : e.value known = some v) :
    term? known cs = if e.literalsFit then some (wrap v) else none := by
  induction h with
  | literal h => exact (Spells.literal h).term?_of_isAtom hnamed hfit rfl hv
  | negative hgap h => exact (Spells.negative hgap h).term?_of_isAtom hnamed hfit rfl hv
  | name h => exact (Spells.name h).term?_of_isAtom hnamed hfit rfl hv
  | paren h ih =>
    rw [term?_paren h]
    exact ih hplain hv
  | operand hfront hback h ih =>
    rw [term?_blanks hfront hback]
    exact ih hplain hv
  | one h ih | single h ih => exact ih hplain hv
  | shift hleft hright => exact hleft.term?_shift hnamed hright hplain hv
  | join => cases hplain

/-- With parentheses around both operands a shift is stripped of one from each, which no piece that is read
lacks. -/
theorem Spells.term?_enclosed (hnamed : known.Named) (hfit : known.Fit) {left right : List Char}
    {a b : EnumExpr} (hleft : Spells .operand left (.paren a)) (hright : Spells .operand right (.paren b))
    (hshifts : a.shifts = 0) : term? known (left ++ '<' :: '<' :: right) = none := by
  obtain ⟨x, gap, gap', y, hx, hy, hgap, hgap', htrim⟩ := hleft.trim_shift hright
  cases hx with
  | @paren x _ hx =>
    cases hy with
    | @paren y _ hy =>
      -- inside the outermost pair the left side closes one parenthesis too many
      have hinside : '(' :: (x ++ [')']) ++ gap ++ '<' :: '<' :: (gap' ++ '(' :: (y ++ [')'])) =
          '(' :: (((x ++ ')' :: gap) ++ '<' :: '<' :: (gap' ++ '(' :: y)) ++ [')']) := by simp
      have hblank : ∀ c ∈ gap, isMark c = false := fun c hc => isMark_of_isBlank (hgap c hc)
      have hdepth : parenDepth (x ++ ')' :: gap) = -1 := by
        have hclose : parenDepth (')' :: gap) = parenDepth [')'] + parenDepth gap :=
          parenDepth_append [')'] gap
        rw [parenDepth_append, hclose, hx.parenDepth_eq_zero, parenDepth_of_noMark hblank]
        decide
      have hnoShift : (x ++ ')' :: gap).count '<' = 0 := by
        rw [List.count_append, hx.count_shift, hshifts, List.count_cons,
          count_of_noMark (by decide) hblank]
        decide
      obtain ⟨front, left', right', back, hfront, hsplit, -, hstrip⟩ :=
        stripParens_shift (x ++ ')' :: gap) (gap' ++ '(' :: y)
      rw [hsplit, parenDepth_append] at hdepth
      rw [hsplit, List.count_append, Nat.add_eq_zero_iff] at hnoShift
      have hcut : cutAt? ['<', '<'] (stripParens (trim (left ++ '<' :: '<' :: right))) =
          some (left', right') := by
        rw [htrim, hinside, stripParens_paren, hstrip,
          cutAt?_first (List.count_eq_zero.mp hnoShift.2)]
      rw [term?_cut hcut, Option.bind_eq_none_iff]
      intro v hv
      have hopened := hfront.parenDepth_nonneg
      have hclosed := (operand?_some hnamed hfit hv).1
      omega

/-- **A term without joins that is not plain is refused.** -/
theorem Spells.term?_none (hnamed : known.Named) (hfit : known.Fit) {level : Level}
    (h : Spells level cs e) (hjoins : e.joins = 0) (hplain : e.isPlainTerm = false) :
    term? known cs = none := by
  induction h with
  | literal | negative | name => cases hplain
  | paren h ih =>
    rw [term?_paren h]
    exact ih hjoins hplain
  | operand hfront hback h ih =>
    rw [term?_blanks hfront hback]
    exact ih hjoins hplain
  | one h ih | single h ih => exact ih hjoins hplain
  | @shift left right a b hleft hright =>
    obtain ⟨hjoins, hjoins'⟩ := Nat.add_eq_zero_iff.mp hjoins
    by_cases hshifts : a.shifts = 0 ∧ b.shifts = 0
    · have hatom := EnumExpr.isAtom_of_counts hshifts.1 hjoins
      have hatom' := EnumExpr.isAtom_of_counts hshifts.2 hjoins'
      simp only [EnumExpr.isPlainTerm, hatom, hatom', Bool.true_and, Bool.not_eq_false',
        Bool.and_eq_true] at hplain
      obtain ⟨a, rfl⟩ := EnumExpr.exists_paren hplain.1
      obtain ⟨b, rfl⟩ := EnumExpr.exists_paren hplain.2
      exact hleft.term?_enclosed hnamed hfit hright hshifts.1
    · rw [Option.eq_none_iff_forall_not_mem]
      intro v hv
      have hcount := (term?_some hnamed hfit hv).2
      rw [(Spells.shift hleft hright).count_shift, EnumExpr.shifts] at hcount
      omega
  | join => exact absurd hjoins (Nat.succ_ne_zero _)

/-! ## Expressions -/

/-- The piece in front of the first `|`; if that one stands in parentheses, it opens more of them than it
closes. -/
theorem Spells.parenDepth_first {level : Level} (h : Spells level cs e) (hjoins : 0 < e.joins) :
    0 ≤ parenDepth (cs.takeWhile (· != '|')) ∧
      (level ≠ .expression → 0 < parenDepth (cs.takeWhile (· != '|'))) := by
  induction h with
  | literal | negative | name => exact absurd hjoins (Nat.lt_irrefl 0)
  | @paren cs e h ih =>
    have hmem : '|' ∈ cs := List.count_pos_iff.mp (h.count_join ▸ hjoins)
    have hpiece : ('(' :: (cs ++ [')'])).takeWhile (· != '|') = ['('] ++ cs.takeWhile (· != '|') := by
      rw [List.takeWhile_cons_of_pos (by decide), takeWhile_of_mem hmem]
      rfl
    have hopen : parenDepth ['('] = 1 := by decide
    have hinner := (ih hjoins).1
    rw [hpiece, parenDepth_append, hopen]
    omega
  | @operand front cs back e hfront hback h ih =>
    have hmem : '|' ∈ cs := List.count_pos_iff.mp (h.count_join ▸ hjoins)
    have hblank : ∀ c ∈ front, isMark c = false := fun c hc => isMark_of_isBlank (hfront c hc)
    have hfrontMark : '|' ∉ front := fun hc => absurd (hblank '|' hc) (by decide)
    rw [takeWhile_of_notMem hfrontMark, takeWhile_of_mem hmem, parenDepth_append,
      parenDepth_of_noMark hblank, Int.zero_add]
    have hinner := (ih hjoins).2 (by decide)
    omega
  | one h ih =>
    have hinner := (ih hjoins).2 (by decide)
    omega
  | @shift left right a b hleft hright ihleft ihright =>
    by_cases hmem : '|' ∈ left
    · have hinner := (ihleft (hleft.count_join ▸ List.count_pos_iff.mpr hmem)).2 (by decide)
      rw [takeWhile_of_mem hmem]
      omega
    · have hnone : a.joins = 0 := by rw [← hleft.count_join, List.count_eq_zero.mpr hmem]
      have hinner := (ihright (by rw [EnumExpr.joins, hnone] at hjoins; omega)).2 (by decide)
      have hpiece : ('<' :: '<' :: right).takeWhile (· != '|') =
          ['<', '<'] ++ right.takeWhile (· != '|') := by
        rw [List.takeWhile_cons_of_pos (by decide), List.takeWhile_cons_of_pos (by decide)]
        rfl
      have hshift : parenDepth ['<', '<'] = 0 := by decide
      rw [takeWhile_of_notMem hmem, hpiece, parenDepth_append, parenDepth_append, hleft.parenDepth_eq_zero, hshift]
      omega
  | single h ih => exact ⟨((ih hjoins).2 (by decide)).le, fun hlevel => absurd rfl hlevel⟩
  | @join left right a b hleft hright ihleft ihright =>
    refine ⟨?_, fun hlevel => absurd rfl hlevel⟩
    by_cases hmem : '|' ∈ left
    · rw [takeWhile_of_mem hmem]
      exact (ihleft (hleft.count_join ▸ List.count_pos_iff.mpr hmem)).1
    · rw [takeWhile_of_notMem hmem, List.takeWhile_cons_of_neg (by decide), List.append_nil,
        hleft.parenDepth_eq_zero]

theorem mapM_none {f : List Char → Option Int} {pieces : List (List Char)} {piece : List Char}
    (hmem : piece ∈ pieces) (h : f piece = none) : pieces.mapM f = none := by
  obtain ⟨before, after, rfl⟩ := List.append_of_mem hmem
  rw [List.mapM_append, List.mapM_cons, h]
  cases before.mapM f <;> rfl

/-- A term is an expression without joins, if it is plain at all. -/
theorem Spells.isReadable_of_term (h : Spells .term cs e) :
    e.isReadable = (e.isPlainTerm && e.literalsFit) := by
  have hcore {cs : List Char} (h : Spells .core cs e) : e.isPlain = e.isPlainTerm := by cases h <;> rfl
  have hplain : e.isPlain = e.isPlainTerm := by
    cases h with
    | one h =>
      cases h with
      | operand _ _ h => exact hcore h
    | shift => rfl
  rw [EnumExpr.isReadable, hplain]

/-- The pieces of a term: the term itself, or one of them is refused. -/
theorem Spells.pieces_term (hnamed : known.Named) (hfit : known.Fit) (h : Spells .term cs e)
    (hv : e.value known = some v) : (splitAtChar '|' cs).mapM (term? known) =
      if e.isPlainTerm && e.literalsFit then some [wrap v] else none := by
  rcases Nat.eq_zero_or_pos e.joins with hjoins | hjoins
  · have hnoMark : '|' ∉ cs := by rw [← List.count_eq_zero, h.count_join, hjoins]
    rw [splitAtChar_of_notMem hnoMark, List.mapM_cons, List.mapM_nil]
    cases hplain : e.isPlainTerm with
    | true =>
      rw [h.term?_eq hnamed hfit hplain hv]
      cases e.literalsFit <;> rfl
    | false =>
      rw [h.term?_none hnamed hfit hjoins hplain]
      rfl
  · have hplain : e.isPlainTerm = false := by
      rw [Bool.eq_false_iff]
      intro hplain
      rw [EnumExpr.joins_of_isPlainTerm hplain] at hjoins
      exact Nat.lt_irrefl 0 hjoins
    have hrefused : term? known (cs.takeWhile (· != '|')) = none := by
      rw [Option.eq_none_iff_forall_not_mem]
      intro w hw
      have hopen := (h.parenDepth_first hjoins).2 (by decide)
      rw [(term?_some hnamed hfit hw).1] at hopen
      exact Int.lt_irrefl 0 hopen
    rw [mapM_none (takeWhile_mem_splitAtChar '|' cs) hrefused, hplain]
    rfl

theorem Spells.pieces_expression (hnamed : known.Named) (hfit : known.Fit) (h : Spells .expression cs e)
    (hv : e.value known = some v) :
    (e.isReadable = true → ∃ first rest,
      (splitAtChar '|' cs).mapM (term? known) = some (first :: rest) ∧ rest.foldl wideOr first = wrap v) ∧
    (e.isReadable = false → (splitAtChar '|' cs).mapM (term? known) = none) := by
  generalize hlevel : Level.expression = level at h
  induction h generalizing v with
  | literal | negative | name | paren | operand | one | shift => cases hlevel
  | single h =>
    rw [h.isReadable_of_term, h.pieces_term hnamed hfit hv]
    exact ⟨fun hreadable => ⟨wrap v, [], by rw [if_pos hreadable], rfl⟩, fun hreadable => by rw [hreadable]; rfl⟩
  | @join left right a b hleft hright ihleft =>
    obtain ⟨w, hw, hv⟩ := Option.bind_eq_some_iff.mp hv
    obtain ⟨w', hw', hv⟩ := Option.bind_eq_some_iff.mp hv
    obtain rfl := Option.some.inj hv
    have hreadable : (EnumExpr.join a b).isReadable =
        (a.isReadable && (b.isPlainTerm && b.literalsFit)) := by
      simp only [EnumExpr.isReadable, EnumExpr.isPlain, EnumExpr.literalsFit]
      ac_rfl
    obtain ⟨hsome, hnone⟩ := ihleft hw rfl
    rw [hreadable, splitAtChar_append, List.mapM_append, hright.pieces_term hnamed hfit hw']
    constructor
    · intro h
      obtain ⟨ha, hb⟩ := Bool.and_eq_true_iff.mp h
      obtain ⟨first, rest, hpieces, hfold⟩ := hsome ha
      refine ⟨first, rest ++ [wrap w'], by simp [hpieces, hb], ?_⟩
      rw [List.foldl_append, hfold, List.foldl_cons, List.foldl_nil, wideOr_eq]
    · intro h
      rcases Bool.and_eq_false_iff.mp h with ha | hb
      · rw [hnone ha]
        rfl
      · rw [hb]
        cases (splitAtChar '|' left).mapM (term? known) <;> rfl

/-- **An expression is read exactly if it is readable**, and yields the lowest bits of its value. -/
theorem Spells.expression?_eq (hnamed : known.Named) (hfit : known.Fit) {text : String}
    (h : Spells .expression text.toList e) (hv : e.value known = some v) :
    expression? known text = if e.isReadable then some (wrap v) else none := by
  obtain ⟨hsome, hnone⟩ := h.pieces_expression hnamed hfit hv
  unfold expression?
  cases hreadable : e.isReadable with
  | true =>
    obtain ⟨first, rest, hpieces, hfold⟩ := hsome hreadable
    rw [hpieces, ← hfold]
    rfl
  | false =>
    rw [hnone hreadable]
    rfl

end

end LuaGlue
