import Mathlib.Data.List.Forall2
import LuaGlue.Proofs.EnumValue.Literals

/-!
# How far enumerator values are exact

What a declaration gives an enumerator in the integers, where nothing overflows (`TermValue`,
`ExpressionValue`, `Declares`), against the value that is kept. Literals and names are exact or refused.
A shift checks its count but not its result, of which the lowest 128 bits are kept, and the member behind the
greatest word has that word again. Either way the integer itself is kept exactly if it fits
(`members_exact_iff`); if it does not, the enum is accepted with another value.
-/

set_option autoImplicit false

namespace LuaGlue

open Text

/-! ## Values without a bound -/

/-- The integer an operand stands for: an earlier member's, a literal's, or minus a literal's. -/
inductive OperandValue (known : KnownItems) : List Char → Int → Prop
  | name {cs : List Char} {v : Int} (h : known.lookup (String.ofList cs) = some v) :
      OperandValue known cs v
  | literal {cs : List Char} {v : Int} (hname : known.lookup (String.ofList cs) = none)
      (hsign : cs.head? ≠ some '-') (h : IsLiteral Signed cs v) : OperandValue known cs v
  | negative {cs : List Char} {v : Int} (hname : known.lookup (String.ofList ('-' :: cs)) = none)
      (h : IsLiteral Signed (trim cs) v) : OperandValue known ('-' :: cs) (-v)

/-- The integer a term stands for; `<<` multiplies by a power of two. -/
inductive TermValue (known : KnownItems) (cs : List Char) : Int → Prop
  | operand {v : Int} (hcut : cutAt? ['<', '<'] (stripParens (trim cs)) = none)
      (h : OperandValue known (stripParens (trim cs)) v) : TermValue known cs v
  | shift {left right : List Char} {a count : Int}
      (hcut : cutAt? ['<', '<'] (stripParens (trim cs)) = some (left, right))
      (hleft : OperandValue known (stripParens (trim left)) a)
      (hright : OperandValue known (stripParens (trim right)) count) (hcount : 0 ≤ count) :
      TermValue known cs (a * 2 ^ count.toNat)

/-- The integer an expression stands for: the bitwise or of its terms. -/
def ExpressionValue (known : KnownItems) (text : String) (v : Int) : Prop :=
  ∃ first rest, (splitAtChar '|' text.toList).Forall₂ (TermValue known) (first :: rest) ∧
    v = rest.foldl Int.lor first

/-- One more than the last of the members, or zero. -/
def following (before : List EnumItem) : Int := before.getLast?.elim 0 (·.value + 1)

/-- The names of members with their values, the newest in front. -/
def knownAfter (before : List EnumItem) : KnownItems :=
  before.reverse.map fun member => (member.name, member.value)

/-- What a declaration gives an enumerator behind the members `before`: one more than the last of them, a
number, or an expression over their names. -/
inductive Declares (before : List EnumItem) : Option ItemValue → Int → Prop
  | next : Declares before none (following before)
  | number {n : Int} : Declares before (some (.number n)) n
  | expression {s : String} {v : Int} (h : ExpressionValue (knownAfter before) s v) :
      Declares before (some (.text s)) v

/-! ## At most one value -/

variable {known : KnownItems}

theorem IsLiteral.unique {cs : List Char} {v w : Int} (hv : IsLiteral Signed cs v)
    (hw : IsLiteral Signed cs w) : v = w :=
  Option.some.inj ((unbounded?_iff.mpr hv).symm.trans (unbounded?_iff.mpr hw))

theorem OperandValue.unique {cs : List Char} {v w : Int} (hv : OperandValue known cs v)
    (hw : OperandValue known cs w) : v = w := by
  cases hv with
  | name hv =>
    cases hw with
    | name hw => exact Option.some.inj (hv.symm.trans hw)
    | literal hname | negative hname => rw [hv] at hname; cases hname
  | literal hname hsign hv =>
    cases hw with
    | name hw => rw [hw] at hname; cases hname
    | literal _ _ hw => exact hv.unique hw
    | negative => exact absurd rfl hsign
  | negative hname hv =>
    cases hw with
    | name hw => rw [hw] at hname; cases hname
    | literal _ hsign => exact absurd rfl hsign
    | negative _ hw => rw [hv.unique hw]

theorem TermValue.unique {cs : List Char} {v w : Int} (hv : TermValue known cs v)
    (hw : TermValue known cs w) : v = w := by
  cases hv with
  | operand hcut hv =>
    cases hw with
    | operand _ hw => exact hv.unique hw
    | shift hcut' => rw [hcut] at hcut'; cases hcut'
  | shift hcut hleft hright =>
    cases hw with
    | operand hcut' => rw [hcut] at hcut'; cases hcut'
    | shift hcut' hleft' hright' =>
      obtain ⟨rfl, rfl⟩ := Prod.mk.inj (Option.some.inj (hcut.symm.trans hcut'))
      rw [hleft.unique hleft', hright.unique hright']

theorem ExpressionValue.unique {text : String} {v w : Int} (hv : ExpressionValue known text v)
    (hw : ExpressionValue known text w) : v = w := by
  obtain ⟨first, rest, hterms, rfl⟩ := hv
  obtain ⟨first', rest', hterms', rfl⟩ := hw
  have hunique : Relator.RightUnique (TermValue known) := fun _ _ _ h h' => h.unique h'
  obtain ⟨rfl, rfl⟩ := List.cons.inj (Relator.RightUnique.forall₂ hunique hterms hterms')
  rfl

theorem Declares.unique {before : List EnumItem} {value : Option ItemValue} {v w : Int}
    (hv : Declares before value v) (hw : Declares before value w) : v = w := by
  cases hv with
  | next | number =>
    cases hw
    rfl
  | expression hv =>
    cases hw with
    | expression hw => exact hv.unique hw

/-! ## What is kept -/

/-- Members known by values that fit. -/
def KnownItems.Fit (known : KnownItems) : Prop := ∀ entry ∈ known, isWide entry.2 = true

/-- An operand is exact or refused. -/
theorem operand?_exact (hfit : known.Fit) {cs : List Char} {v : Int} (h : operand? known cs = some v) :
    OperandValue known cs v ∧ isWide v = true := by
  unfold operand? at h
  split at h
  · rename_i value hname
    obtain rfl := Option.some.inj h
    obtain ⟨before, after, hknown, -⟩ := List.lookup_eq_some_iff.mp hname
    exact ⟨.name hname, hfit (String.ofList cs, value) (by simp [hknown])⟩
  · rename_i hname
    split at h
    · rename_i rest
      obtain ⟨hneg, hwide⟩ := Option.filter_eq_some_iff.mp h
      obtain ⟨magnitude, hliteral, rfl⟩ := Option.map_eq_some_iff.mp hneg
      rw [literal?_eq, Option.filter_eq_some_iff] at hliteral
      exact ⟨.negative hname (unbounded?_iff.mp hliteral.1), hwide⟩
    · rename_i hsign
      rw [literal?_eq, Option.filter_eq_some_iff] at h
      refine ⟨.literal hname ?_ (unbounded?_iff.mp h.1), h.2⟩
      intro hhead
      obtain ⟨rest, rfl⟩ := List.head?_eq_some_iff.mp hhead
      exact hsign rest rfl

/-- Of a term the lowest bits are kept. -/
theorem term?_exact (hfit : known.Fit) {cs : List Char} {v : Int} (h : term? known cs = some v) :
    ∃ exact, TermValue known cs exact ∧ v = wrap exact := by
  unfold term? at h
  dsimp only at h
  split at h
  · rename_i left right hcut
    obtain ⟨a, hleft, h⟩ := Option.bind_eq_some_iff.mp h
    obtain ⟨count, hright, h⟩ := Option.bind_eq_some_iff.mp h
    by_cases hcount : 0 ≤ count ∧ count < 128
    · rw [wideShift?_eq hcount.1 hcount.2] at h
      refine ⟨_, .shift hcut (operand?_exact hfit hleft).1 (operand?_exact hfit hright).1 hcount.1, ?_⟩
      exact (Option.some.inj h).symm
    · rw [wideShift?_eq_none hcount] at h
      cases h
  · rename_i hcut
    obtain ⟨hvalue, hwide⟩ := operand?_exact hfit h
    exact ⟨v, .operand hcut hvalue, (wrap_of_isWide hwide).symm⟩

theorem mapM_term?_exact (hfit : known.Fit) : ∀ {pieces : List (List Char)} {vs : List Int},
    pieces.mapM (term? known) = some vs →
    ∃ exacts, pieces.Forall₂ (TermValue known) exacts ∧ vs = exacts.map wrap := by
  intro pieces
  induction pieces with
  | nil =>
    intro vs h
    obtain rfl := Option.some.inj h
    exact ⟨[], .nil, rfl⟩
  | cons piece pieces ih =>
    intro vs h
    rw [List.mapM_cons] at h
    obtain ⟨v, hv, h⟩ := Option.bind_eq_some_iff.mp h
    obtain ⟨vs', hvs, h⟩ := Option.bind_eq_some_iff.mp h
    obtain rfl := Option.some.inj h
    obtain ⟨exact, hterm, rfl⟩ := term?_exact hfit hv
    obtain ⟨exacts, hterms, rfl⟩ := ih hvs
    exact ⟨exact :: exacts, .cons hterm hterms, rfl⟩

/-- Of an expression the lowest bits are kept. -/
theorem expression?_exact (hfit : known.Fit) {text : String} {v : Int}
    (h : expression? known text = some v) : ∃ exact, ExpressionValue known text exact ∧ v = wrap exact := by
  unfold expression? at h
  obtain ⟨vs, hvs, h⟩ := Option.bind_eq_some_iff.mp h
  obtain ⟨exacts, hterms, rfl⟩ := mapM_term?_exact hfit hvs
  cases exacts with
  | nil => cases h
  | cons first rest =>
    obtain rfl := Option.some.inj h
    exact ⟨_, ⟨first, rest, hterms, rfl⟩, foldl_wideOr first rest⟩

/-! ## Members -/

/-- The value that a member behind `before` has without giving one. -/
def nextAfter (before : List EnumItem) : Int := before.getLast?.elim 0 fun last => wideSucc last.value

theorem nextAfter_concat (before : List EnumItem) (member : EnumItem) :
    nextAfter (before ++ [member]) = wideSucc member.value := by
  rw [nextAfter, List.getLast?_concat]
  rfl

theorem knownAfter_concat (before : List EnumItem) (member : EnumItem) :
    knownAfter (before ++ [member]) = (member.name, member.value) :: knownAfter before := by
  rw [knownAfter, List.reverse_concat]
  rfl

theorem knownAfter_forall {P : String × Int → Prop} {before : List EnumItem}
    (h : ∀ member ∈ before, P (member.name, member.value)) : ∀ entry ∈ knownAfter before, P entry := by
  intro entry hentry
  obtain ⟨member, hmember, rfl⟩ := List.mem_map.mp hentry
  exact h member (List.mem_reverse.mp hmember)

/-- **The value that follows is exact if it fits**; behind the greatest word there is none. -/
theorem nextAfter_exact {before : List EnumItem} (hfit : ∀ member ∈ before, isWide member.value = true) :
    isWide (nextAfter before) = true ∧
      (nextAfter before = following before ↔ isWide (following before) = true) := by
  unfold nextAfter following
  cases hlast : before.getLast? with
  | none => decide
  | some last =>
    have hwide := hfit last (List.mem_of_getLast? hlast)
    have hnext : wideSucc last.value = min (last.value + 1) (2 ^ 127 - 1) := rfl
    simp only [Option.elim_some, hnext, isWide_iff] at hwide ⊢
    omega

/-- One member: it has a value in the integers, and keeps it exactly if it fits. -/
theorem resolve_exact {before : List EnumItem} (hfit : ∀ member ∈ before, isWide member.value = true)
    {item : ItemSpelling} (hnumber : ∀ n, item.value = some (.number n) → isWide n = true) {v : Int}
    (h : item.resolve (knownAfter before) (nextAfter before) = .ok v) :
    isWide v = true ∧ ∃ exact, Declares before item.value exact ∧ (v = exact ↔ isWide exact = true) := by
  have hknown : (knownAfter before).Fit := knownAfter_forall hfit
  unfold ItemSpelling.resolve at h
  split at h
  · rename_i hvalue
    obtain rfl := Except.ok.inj h
    rw [hvalue]
    obtain ⟨hwide, hexact⟩ := nextAfter_exact hfit
    exact ⟨hwide, _, .next, hexact⟩
  · rename_i n hvalue
    obtain rfl := Except.ok.inj h
    have hwide := hnumber _ hvalue
    rw [hvalue]
    exact ⟨hwide, _, .number, iff_of_true rfl hwide⟩
  · rename_i s hvalue
    split at h
    · rename_i value hexpr
      obtain rfl := Except.ok.inj h
      obtain ⟨exact, hexact, rfl⟩ := expression?_exact hknown hexpr
      rw [hvalue]
      exact ⟨isWide_wrap _, exact, .expression hexact, wrap_eq_self_iff⟩
    · cases h

theorem resolveFrom_cons_iff {known : KnownItems} {next : Int} {item : ItemSpelling}
    {items : List ItemSpelling} {members : List EnumItem} :
    resolveFrom known next (item :: items) = .ok members ↔ ∃ v rest, item.resolve known next = .ok v ∧
      resolveFrom ((item.name, v) :: known) (wideSucc v) items = .ok rest ∧
      members = ⟨item.name, v⟩ :: rest := by
  rw [resolveFrom]
  cases item.resolve known next with
  | error fault => simp [bind, Except.bind]
  | ok v =>
    cases hrest : resolveFrom ((item.name, v) :: known) (wideSucc v) items with
    | error fault => simp [bind, Except.bind, hrest]
    | ok rest => simp [bind, Except.bind, hrest, pure, Except.pure, eq_comm]

theorem resolveFrom_names : ∀ {items : List ItemSpelling} {known : KnownItems} {next : Int}
    {members : List EnumItem}, resolveFrom known next items = .ok members →
    members.map (·.name) = items.map (·.name) := by
  intro items
  induction items with
  | nil =>
    intro known next members h
    cases h
    rfl
  | cons item items ih =>
    intro known next members h
    obtain ⟨v, rest, -, hrest, rfl⟩ := resolveFrom_cons_iff.mp h
    rw [List.map_cons, List.map_cons, ih hrest]

theorem resolveFrom_exact : ∀ {items : List ItemSpelling} {before members : List EnumItem},
    (∀ member ∈ before, isWide member.value = true) →
    (∀ item ∈ items, ∀ n, item.value = some (.number n) → isWide n = true) →
    resolveFrom (knownAfter before) (nextAfter before) items = .ok members →
    ∀ {i : Nat} {item : ItemSpelling} {member : EnumItem}, items[i]? = some item →
      members[i]? = some member →
      ∃ exact, Declares (before ++ members.take i) item.value exact ∧
        (member.value = exact ↔ isWide exact = true) := by
  intro items
  induction items with
  | nil =>
    intro before members _ _ _ i item member hitem
    cases hitem
  | cons head items ih =>
    intro before members hfit hnumbers h i item member hitem hmember
    obtain ⟨hnumber, hnumbers⟩ := List.forall_mem_cons.mp hnumbers
    obtain ⟨v, rest, hv, hrest, rfl⟩ := resolveFrom_cons_iff.mp h
    obtain ⟨hwide, exact, hdeclares, hkept⟩ := resolve_exact hfit hnumber hv
    cases i with
    | zero =>
      cases hitem
      cases hmember
      rw [List.take_zero, List.append_nil]
      exact ⟨exact, hdeclares, hkept⟩
    | succ i =>
      rw [← knownAfter_concat before ⟨head.name, v⟩, ← nextAfter_concat before ⟨head.name, v⟩] at hrest
      have hfit' : ∀ member ∈ before ++ [⟨head.name, v⟩], isWide member.value = true := by
        rw [List.forall_mem_append, List.forall_mem_singleton]
        exact ⟨hfit, hwide⟩
      have hstep := ih hfit' hnumbers hrest hitem hmember
      rwa [List.append_assoc, List.singleton_append, ← List.take_succ_cons] at hstep

/-- **Whatever enum is accepted, each declaration gives its member one integer, and the member has this
integer as its value if and only if it fits 128 bits.** -/
theorem members_exact_iff {items : List ItemSpelling} {members : List EnumItem}
    (hnumbers : ∀ item ∈ items, ∀ n, item.value = some (.number n) → isWide n = true)
    (h : resolveItems items = .ok members) :
    members.map (·.name) = items.map (·.name) ∧
      ∀ i item member, items[i]? = some item → members[i]? = some member →
        ∃ exact, (∀ v, Declares (members.take i) item.value v ↔ v = exact) ∧
          (member.value = exact ↔ isWide exact = true) := by
  refine ⟨resolveFrom_names h, fun i item member hitem hmember => ?_⟩
  have hbefore : ∀ member ∈ ([] : List EnumItem), isWide member.value = true :=
    List.forall_mem_nil _
  obtain ⟨exact, hdeclares, hkept⟩ := resolveFrom_exact hbefore hnumbers h hitem hmember
  rw [List.nil_append] at hdeclares
  exact ⟨exact, fun v => ⟨fun hv => hv.unique hdeclares, fun hv => hv ▸ hdeclares⟩, hkept⟩

theorem members_exact_iff_flags :
    resolveItems [⟨"SHOWN", some (.text "0x10 << 2")⟩, ⟨"HIDDEN", none⟩,
        ⟨"ALL", some (.text "SHOWN | -2 | 1")⟩] =
      .ok [⟨"SHOWN", 64⟩, ⟨"HIDDEN", 65⟩, ⟨"ALL", -1⟩] ∧
    ∃ exact, (∀ v, Declares [⟨"SHOWN", 64⟩, ⟨"HIDDEN", 65⟩] (some (.text "SHOWN | -2 | 1")) v ↔ v = exact) ∧
      (-1 = exact ↔ isWide exact = true) := by
  have h : resolveItems [⟨"SHOWN", some (.text "0x10 << 2")⟩, ⟨"HIDDEN", none⟩,
      ⟨"ALL", some (.text "SHOWN | -2 | 1")⟩] = .ok [⟨"SHOWN", 64⟩, ⟨"HIDDEN", 65⟩, ⟨"ALL", -1⟩] := by
    decide +kernel
  exact ⟨h, (members_exact_iff (by simp) h).2 2 _ _ rfl rfl⟩

/-- A shift loses the bits that do not fit and keeps a small value; a member behind the greatest word
repeats it. -/
theorem members_not_exact :
    resolveItems [⟨"FLAG", some (.text "0x40000000000000000000000000000001 << 2")⟩] = .ok [⟨"FLAG", 4⟩] ∧
    Declares [] (some (.text "0x40000000000000000000000000000001 << 2")) (2 ^ 128 + 4) ∧
    resolveItems [⟨"TOP", some (.text "0x7fffffffffffffffffffffffffffffff")⟩, ⟨"NEXT", none⟩] =
      .ok [⟨"TOP", 2 ^ 127 - 1⟩, ⟨"NEXT", 2 ^ 127 - 1⟩] ∧
    Declares [⟨"TOP", 2 ^ 127 - 1⟩] none (2 ^ 127) := by
  refine ⟨by decide +kernel, ?_, by decide +kernel, ?_⟩
  · have hcut : cutAt? ['<', '<'] (stripParens (trim "0x40000000000000000000000000000001 << 2".toList)) =
        some ("0x40000000000000000000000000000001 ".toList, [' ', '2']) := by decide +kernel
    have hstrip : stripParens (trim "0x40000000000000000000000000000001 ".toList) =
        "0x40000000000000000000000000000001".toList := by decide +kernel
    have hleft : OperandValue [] (stripParens (trim "0x40000000000000000000000000000001 ".toList))
        (2 ^ 126 + 1) := by
      rw [hstrip]
      exact .literal rfl (by decide) (unbounded?_iff.mp (by decide +kernel))
    have hright : OperandValue [] ['2'] 2 :=
      .literal rfl (by decide) (unbounded?_iff.mp (by decide +kernel))
    exact .expression ⟨_, [], .cons (.shift hcut hleft hright (by decide)) .nil, by decide⟩
  · exact .next

end LuaGlue
