import LuaGlue.Marshal.Push
import LuaGlue.Proofs.Draft.Torn
import LuaGlue.Proofs.Marshal.Parts
import LuaGlue.Proofs.Marshal.PushCode
import LuaGlue.Proofs.Marshal.ReadCode

/-!
# Why a value cannot be marshaled

`push` and `read` break off at a part of the type that cannot be marshaled (`Hindrance`): a `void`, a
tuple without a usable list of members, a tuple inside too many others — and an array whose spelling
shows no dimension, which is to say one that only an alias says is an array. They break off if and only
if there is such a part, and with its fault (`marshaling_fails_iff`).

Only the last of the four is an accident. The category is found behind the alias and the elements are
looked for in front of it; `aliased_array_fails` is the smallest case.
-/

set_option autoImplicit false

namespace LuaGlue

/-! ## Lists of members -/

/-- The field that an entry of a tuple's list of members is about: what stands before the colon. -/
def memberField (entry : String) : String :=
  String.ofList (Text.trim (entry.toList.takeWhile (· != ':')))

/-- A tuple's list of members is missing, empty, or has an entry that names no field. -/
inductive NoMembers (ctx : Context) (name : String) : TupleFault → Prop where
  | missing (h : ctx.manifest.types.tuples.lookup name = none) : NoMembers ctx name .noMembers
  | empty (h : ctx.manifest.types.tuples.lookup name = some []) : NoMembers ctx name .emptyList
  | emptyField {entries entry} (h : ctx.manifest.types.tuples.lookup name = some entries)
      (hmem : entry ∈ entries) (hfield : memberField entry = "") :
      NoMembers ctx name (.emptyMember entry)

theorem cutAtChar?_before (mark : Char) (cs : List Char) :
    (Text.cutAtChar? mark cs = none ∧ cs.takeWhile (· != mark) = cs) ∨
      ∃ after, Text.cutAtChar? mark cs = some (cs.takeWhile (· != mark), after) := by
  induction cs with
  | nil => exact .inl ⟨rfl, rfl⟩
  | cons c rest ih =>
    by_cases hc : c = mark
    · exact .inr ⟨rest, by simp [Text.cutAtChar?, hc]⟩
    · rw [Text.cutAtChar?, if_neg hc, List.takeWhile_cons_of_pos (by simpa using hc)]
      rcases ih with ⟨hcut, hall⟩ | ⟨after, hcut⟩
      · exact .inl ⟨by rw [hcut]; rfl, by rw [hall]⟩
      · exact .inr ⟨after, by rw [hcut]; rfl⟩

/-- An entry is refused if and only if it names no field. -/
theorem tupleMember_cases (ctx : Context) (name entry : String) :
    (memberField entry = "" ∧
      ctx.tupleMember name entry = .error (.tuple name (.emptyMember entry))) ∨
    (memberField entry ≠ "" ∧ ∃ member, ctx.tupleMember name entry = .ok member) := by
  unfold Context.tupleMember
  rcases cutAtChar?_before ':' entry.toList with ⟨hcut, hall⟩ | ⟨after, hcut⟩
  · have hfield : memberField entry = Text.trimmed entry := by rw [memberField, hall]; rfl
    rw [hcut, hfield]
    by_cases hempty : Text.trimmed entry = ""
    · exact .inl ⟨hempty, by simp [hempty]⟩
    · exact .inr ⟨hempty, by simp [hempty]⟩
  · rw [hcut]
    by_cases hempty : memberField entry = ""
    · exact .inl ⟨hempty, by simpa [memberField] using hempty⟩
    · exact .inr ⟨hempty, ⟨memberField entry, String.ofList (Text.trim after)⟩,
        if_neg (by simpa [memberField] using hempty)⟩

theorem tupleEntries_cases (ctx : Context) (name : String) (entries : List String) :
    (∃ entry ∈ entries, memberField entry = "" ∧
      entries.mapM (ctx.tupleMember name) = .error (.tuple name (.emptyMember entry))) ∨
    ((∀ entry ∈ entries, memberField entry ≠ "") ∧
      ∃ members, entries.mapM (ctx.tupleMember name) = .ok members) := by
  induction entries with
  | nil => exact .inr ⟨by simp, [], rfl⟩
  | cons entry rest ih =>
    rw [List.mapM_cons]
    rcases tupleMember_cases ctx name entry with ⟨hfield, hbad⟩ | ⟨hfield, member, hgood⟩
    · exact .inl ⟨entry, List.mem_cons_self, hfield, by rw [hbad]; rfl⟩
    · rw [hgood]
      rcases ih with ⟨other, hmem, hother, hbad⟩ | ⟨hall, members, hgood⟩
      · exact .inl ⟨other, List.mem_cons_of_mem _ hmem, hother, by rw [hbad]; rfl⟩
      · exact .inr ⟨List.forall_mem_cons.mpr ⟨hfield, hall⟩, member :: members, by rw [hgood]; rfl⟩

/-- **The members of a tuple can be told unless its list is missing, empty, or has an entry that names
no field.** -/
theorem tupleMembers_cases (ctx : Context) (name : String) :
    (∃ reason, NoMembers ctx name reason ∧ ctx.tupleMembers name = .error (.tuple name reason)) ∨
    ((∀ reason, ¬ NoMembers ctx name reason) ∧ ∃ members, ctx.tupleMembers name = .ok members) := by
  unfold Context.tupleMembers
  cases hlookup : ctx.manifest.types.tuples.lookup name with
  | none => exact .inl ⟨_, .missing hlookup, rfl⟩
  | some entries =>
    cases entries with
    | nil => exact .inl ⟨_, .empty hlookup, rfl⟩
    | cons first rest =>
      rcases tupleEntries_cases ctx name (first :: rest) with
        ⟨entry, hmem, hfield, hbad⟩ | ⟨hall, hgood⟩
      · exact .inl ⟨_, .emptyField hlookup hmem hfield, hbad⟩
      · refine .inr ⟨fun reason hno => ?_, hgood⟩
        cases hno with
        | missing h | empty h => rw [hlookup] at h; cases h
        | emptyField h hmem hfield =>
          rw [hlookup] at h
          cases h
          exact hall _ hmem hfield

/-! ## Hindrances -/

/-- What is wrong with a part that stands inside `k` tuples, where `levels` tuples may nest. -/
inductive Hindrance (ctx : Context) (m : Memo) (action : Action) (levels k : Nat) (part : String) :
    Fault → Prop where
  | void (hc : m.find? part = some .void) :
      Hindrance ctx m action levels k part (.unsupported action part)
  | noDimension {c} (hc : m.find? part = some c) (ha : c.isArray = true)
      (he : elementType? part = none) :
      Hindrance ctx m action levels k part (.unsupported action part)
  | noMembers {c name reason} (hc : m.find? part = some c) (ht : c.tuple? action = some name)
      (hk : k < levels) (hm : NoMembers ctx name reason) :
      Hindrance ctx m action levels k part (.tuple name reason)
  | tooDeep {c name} (hc : m.find? part = some c) (ht : c.tuple? action = some name)
      (hk : levels ≤ k) : Hindrance ctx m action levels k part (.tuple name .tooDeep)

/-- A part of the type is hindered, with this fault. -/
def Hindered (ctx : Context) (m : Memo) (action : Action) (levels : Nat) (spelling : String)
    (fault : Fault) : Prop :=
  ∃ k part, PartOf ctx m action k spelling part ∧ Hindrance ctx m action levels k part fault

/-- One of some members is hindered. -/
def MembersFail (ctx : Context) (action : Action) (levels : Nat) (members : List TupleMember)
    (fault : Fault) (m : Memo) : Prop :=
  ∃ member ∈ members, Hindered ctx m action levels member.type fault

section

variable {ctx : Context} {m : Memo} {action : Action} {levels k : Nat} {spelling part : String}
  {c : Category} {fault : Fault}

/-- One tuple further in, one tuple less may follow. -/
theorem hindrance_succ_iff : Hindrance ctx m action (levels + 1) (k + 1) part fault ↔
    Hindrance ctx m action levels k part fault := by
  constructor
  · intro h
    cases h with
    | void hc => exact .void hc
    | noDimension hc ha he => exact .noDimension hc ha he
    | noMembers hc ht hk hm => exact .noMembers hc ht (by omega) hm
    | tooDeep hc ht hk => exact .tooDeep hc ht (by omega)
  · intro h
    cases h with
    | void hc => exact .void hc
    | noDimension hc ha he => exact .noDimension hc ha he
    | noMembers hc ht hk hm => exact .noMembers hc ht (by omega) hm
    | tooDeep hc ht hk => exact .tooDeep hc ht (by omega)

/-- How deep an array stands does not matter to it. -/
theorem hindrance_of_isArray (hc : m.find? part = some c) (ha : c.isArray = true) :
    Hindrance ctx m action levels k part fault ↔
      elementType? part = none ∧ fault = .unsupported action part := by
  constructor
  · intro h
    cases h with
    | void hc' => rw [hc] at hc'; cases hc'; cases ha
    | noDimension _ _ he => exact ⟨he, rfl⟩
    | noMembers hc' ht _ _ | tooDeep hc' ht _ =>
      rw [hc] at hc'
      cases hc'
      rw [Category.tuple?_of_isArray ha] at ht
      cases ht
  · rintro ⟨he, rfl⟩
    exact .noDimension hc ha he

/-- A value that is marshaled in one piece. -/
theorem not_hindered_of_leaf (hc : m.find? spelling = some c) (hv : c.isVoid = false)
    (ha : c.isArray = false) (ht : c.tuple? action = none) :
    ¬ Hindered ctx m action levels spelling fault := by
  rintro ⟨k, part, hpart, h⟩
  obtain ⟨rfl, rfl⟩ := (PartOf.leaf_iff hc ha ht).mp hpart
  cases h with
  | void hc' => rw [hc] at hc'; cases hc'; cases hv
  | noDimension hc' ha' _ =>
    rw [hc] at hc'
    cases hc'
    rw [ha] at ha'
    cases ha'
  | noMembers hc' ht' _ _ | tooDeep hc' ht' _ =>
    rw [hc] at hc'
    cases hc'
    rw [ht] at ht'
    cases ht'

/-- An array is hindered if its elements are. -/
theorem hindered_array_iff {elem : String} (hc : m.find? spelling = some c) (ha : c.isArray = true)
    (he : elementType? spelling = some elem) :
    Hindered ctx m action levels spelling fault ↔ Hindered ctx m action levels elem fault := by
  constructor
  · rintro ⟨k, part, hpart, h⟩
    rcases (PartOf.array_iff hc ha).mp hpart with ⟨rfl, rfl⟩ | ⟨elem', he', inside⟩
    · rw [((hindrance_of_isArray hc ha).mp h).1] at he
      cases he
    · rw [he] at he'
      cases he'
      exact ⟨k, part, inside, h⟩
  · rintro ⟨k, part, inside, h⟩
    exact ⟨k, part, .element hc ha he inside, h⟩

/-- A tuple that may still be gone into is hindered if its list of members is of no use, or if a
member is hindered. -/
theorem hindered_tuple_iff {name : String} (hc : m.find? spelling = some c)
    (ht : c.tuple? action = some name) :
    Hindered ctx m action (levels + 1) spelling fault ↔
      (∃ reason, NoMembers ctx name reason ∧ fault = .tuple name reason) ∨
      ∃ members, ctx.tupleMembers name = .ok members ∧ ∃ member ∈ members,
        Hindered ctx m action levels member.type fault := by
  constructor
  · rintro ⟨k, part, hpart, h⟩
    rcases (PartOf.tuple_iff hc ht).mp hpart with
      ⟨rfl, rfl⟩ | ⟨members, hm, member, hmem, j, rfl, inside⟩
    · cases h with
      | void hc' => rw [hc] at hc'; cases hc'; cases ht
      | noDimension hc' ha _ =>
        rw [hc] at hc'
        cases hc'
        rw [Category.tuple?_of_isArray ha] at ht
        cases ht
      | noMembers hc' ht' _ hm =>
        rw [hc] at hc'
        cases hc'
        rw [ht] at ht'
        cases ht'
        exact .inl ⟨_, hm, rfl⟩
      | tooDeep _ _ hk => exact absurd hk (by omega)
    · exact .inr ⟨members, hm, member, hmem, j, part, inside, hindrance_succ_iff.mp h⟩
  · rintro (⟨reason, hm, rfl⟩ | ⟨members, hm, member, hmem, k, part, inside, h⟩)
    · exact ⟨0, spelling, .self, .noMembers hc ht (by omega) hm⟩
    · exact ⟨k + 1, part, .member hc ht hm hmem inside, hindrance_succ_iff.mpr h⟩

theorem hindered_members_iff {name : String} {members : List TupleMember}
    (hc : m.find? spelling = some c) (ht : c.tuple? action = some name)
    (hm : ctx.tupleMembers name = .ok members) :
    Hindered ctx m action (levels + 1) spelling fault ↔
      MembersFail ctx action levels members fault m := by
  rw [hindered_tuple_iff hc ht]
  constructor
  · rintro (⟨reason, hno, -⟩ | ⟨members', hm', h⟩)
    · rcases tupleMembers_cases ctx name with ⟨_, -, hm'⟩ | ⟨hsome, -⟩
      · rw [hm] at hm'
        cases hm'
      · exact absurd hno (hsome reason)
    · rw [hm] at hm'
      cases hm'
      exact h
  · exact fun h => .inr ⟨members, hm, h⟩

end

/-! ## How reading fails -/

section

variable {ctx : Context}

theorem readTable_failsAs {mode : ReadMode} {table : String} {index : StackIndex}
    {inside : Draft Unit} {P : Fault → Memo → Prop} {s : Scratch} (h : inside.FailsAs P s) :
    (readTable mode table index inside).FailsAs P s := by
  unfold readTable
  refine .block _ (.afterLine ?_)
  cases mode with
  | checked => exact .afterLine h
  | lenient => exact .branch _ _ h

theorem readStruct_written (ctx : Context) (name : String) (shape : Shape) (place : Place)
    (index : StackIndex) (mode : ReadMode) (s : Scratch) :
    ∃ code s', readStruct ctx name shape place index mode s = (.written () code, s') := by
  unfold readStruct readForeign
  split
  · exact ⟨_, _, rfl⟩
  · dsimp only
    generalize (if shape == .byteRange then ctx.byteRange? name else none) = range
    cases range <;> exact ⟨_, _, rfl⟩

theorem readWith_failsAs {levels : Nat}
    {tuple : ReadMode → String → Place → StackIndex → Draft Unit}
    (hg : ∀ mode name place index, (tuple mode name place index).Grows)
    (ht : ∀ {mode name place index spelling c s}, s.memo.find? spelling = some c →
      c.tuple? .read = some name → (tuple mode name place index).FailsAs
        (fun fault M => Hindered ctx M .read levels spelling fault) s) :
    ∀ {rank : Nat} {mode : ReadMode} {spelling : String} {place : Place} {index : StackIndex}
      {s : Scratch}, rank = arrayRank spelling →
      (readWith ctx tuple rank mode spelling place index).FailsAs
        (fun fault M => Hindered ctx M .read levels spelling fault) s := by
  intro rank
  induction rank using Nat.strongRecOn with
  | _ rank ih =>
    intro mode spelling place index s hrank
    unfold readWith
    refine .categoryOf fun c s hc => ?_
    -- what is read in one piece is always read
    have leaf {l : Line} (hv : c.isVoid = false) (ha : c.isArray = false)
        (ht : c.tuple? .read = none) : (Draft.line l).FailsAs
          (fun fault M => Hindered ctx M .read levels spelling fault) s :=
      .line fun M hM fault => not_hindered_of_leaf (hM _ _ hc) hv ha ht
    cases c with
    | void => exact .fail fun M hM => ⟨0, spelling, .self, .void (hM _ _ hc)⟩
    | structValue name shape =>
      cases shape with
      | tuple => exact ht hc rfl
      | userdata | byteRange =>
        obtain ⟨code, s', h⟩ := readStruct_written ctx name _ place index mode s
        have hgrows := (readStruct_grows ctx name _ place index mode).of_written h
        exact .never h fun M hM fault => not_hindered_of_leaf (hM _ _ (hgrows _ _ hc)) rfl rfl rfl
    | structPointer name shape isConst =>
      cases shape <;> exact leaf rfl rfl rfl
    | fixedArray elem size =>
      cases he : elementType? spelling with
      | none =>
        have fails : (Draft.fail (.unsupported .read spelling) : Draft Unit).FailsAs
            (fun fault M => Hindered ctx M .read levels spelling fault) s :=
          .fail fun M hM => ⟨0, spelling, .self, .noDimension (hM _ _ hc) rfl he⟩
        cases rank <;> exact fails
      | some elem =>
        rw [arrayRank_eq he] at hrank
        subst hrank
        refine .afterTemp fun table s₁ h₁ => .afterTemp fun k s₂ h₂ => readTable_failsAs
          (.block _ (.afterLine ?_))
        rw [← h₁, ← h₂] at hc
        have inside : (readWith ctx tuple (arrayRank elem) .lenient elem (.element place k) .top).FailsAs
            (fun fault M => Hindered ctx M .read levels elem fault) s₂ :=
          ih (arrayRank elem) (Nat.lt_succ_self _) rfl
        have hgrows : (readWith ctx tuple (arrayRank elem) .lenient elem (.element place k) .top).Grows :=
          readWith_grows hg _ _ _ _ _
        refine .beforeLine (.branch _ _ (inside.congr hgrows fun M hM fault => ?_))
          (hgrows.branch _ _)
        exact (hindered_array_iff (hM _ _ hc) rfl he).symm
    | _ => exact leaf rfl rfl rfl

theorem readMembers_failsAs {levels : Nat} {read : String → Place → Draft Unit}
    (hg : ∀ spelling place, (read spelling place).Grows)
    (hr : ∀ {spelling place s}, (read spelling place).FailsAs
      (fun fault M => Hindered ctx M .read levels spelling fault) s) {table : String} {place : Place} :
    ∀ {members : List TupleMember} {position : Nat} {s : Scratch},
      (readMembers read table place position members).FailsAs
        (MembersFail ctx .read levels members) s := by
  intro members
  induction members with
  | nil => exact fun {_ _} => .never rfl fun _ _ _ ⟨_, h, _⟩ => absurd h List.not_mem_nil
  | cons member rest ih =>
    intro position s
    refine .afterLine ?_
    have tail := readMembers_grows hg table place rest
    have first {s : Scratch} : (read member.type (.memberOf place member.field)).FailsAs
        (fun fault M => Hindered ctx M .read levels member.type fault) s := hr
    refine (first.bind
      (Q := MembersFail ctx .read levels rest) (hg _ _)
      (fun _ => (Draft.Grows.line _).bind fun _ => tail _) fun _ _ _ => .afterLine ih).congr
      ((hg _ _).bind fun _ => (Draft.Grows.line _).bind fun _ => tail _) fun M _ fault => ?_
    simp only [MembersFail, List.mem_cons, exists_eq_or_imp]

theorem readTuple_failsAs :
    ∀ {levels : Nat} {mode : ReadMode} {name : String} {place : Place} {index : StackIndex}
      {spelling : String} {c : Category} {s : Scratch}, s.memo.find? spelling = some c →
      c.tuple? .read = some name → (readTuple ctx levels mode name place index).FailsAs
        (fun fault M => Hindered ctx M .read levels spelling fault) s := by
  intro levels
  induction levels with
  | zero =>
    intro mode name place index spelling c s hc ht
    exact .fail fun M hM => ⟨0, spelling, .self, .tooDeep (hM _ _ hc) ht (Nat.le_refl 0)⟩
  | succ levels ih =>
    intro mode name place index spelling c s hc ht
    unfold readTuple
    rcases tupleMembers_cases ctx name with ⟨reason, hno, hmembers⟩ | ⟨-, members, hmembers⟩
    · rw [hmembers]
      exact .fail fun M hM => (hindered_tuple_iff (hM _ _ hc) ht).mpr (.inl ⟨reason, hno, rfl⟩)
    · rw [hmembers]
      have hreads : ∀ rank mode spelling place index,
          (readWith ctx (readTuple ctx levels) rank mode spelling place index).Grows :=
        readWith_grows (readTuple_grows ctx levels)
      refine .after rfl (.afterTemp fun table s' hs' => readTable_failsAs ?_)
      refine (readMembers_failsAs (fun _ _ => hreads _ _ _ _ _)
        (readWith_failsAs (readTuple_grows ctx levels) ih rfl)).congr
        (readMembers_grows (fun _ _ => hreads _ _ _ _ _) _ _ _ _) fun M hM fault => ?_
      exact (hindered_members_iff (hM _ _ (by rwa [hs'])) ht hmembers).symm

theorem read_failsAs {mode : ReadMode} {spelling : String} {place : Place} {index : StackIndex}
    {s : Scratch} : (read ctx mode spelling place index).FailsAs
      (fun fault M => Hindered ctx M .read maxNesting spelling fault) s :=
  readWith_failsAs (readTuple_grows ctx maxNesting) readTuple_failsAs rfl

end

/-! ## How pushing fails -/

section

variable {ctx : Context}

theorem pushUnlessNull_failsAs {pointer : Local} {source : Expr} {some : Draft Unit}
    {P : Fault → Memo → Prop} {s : Scratch} (h : some.FailsAs P s) :
    (pushUnlessNull ctx pointer source some).FailsAs P s :=
  .block _ (.afterLine (.branch _ _ h))

theorem pushWith_failsAs {levels : Nat} {tuple : String → Place → Draft Unit}
    (hg : ∀ name source, (tuple name source).Grows)
    (ht : ∀ {name source spelling c s}, s.memo.find? spelling = some c →
      c.tuple? .push = some name → (tuple name source).FailsAs
        (fun fault M => Hindered ctx M .push levels spelling fault) s) :
    ∀ {rank : Nat} {spelling : String} {source : Place} {s : Scratch}, rank = arrayRank spelling →
      (pushWith ctx tuple rank spelling source).FailsAs
        (fun fault M => Hindered ctx M .push levels spelling fault) s := by
  intro rank
  induction rank using Nat.strongRecOn with
  | _ rank ih =>
    intro spelling source s hrank
    unfold pushWith
    refine .categoryOf fun c s hc => ?_
    -- what is pushed in one piece is always pushed
    have leaf {m : Draft Unit} {code : Code} {s₁ s' : Scratch} (hv : c.isVoid = false)
        (ha : c.isArray = false) (ht : c.tuple? .push = none) (h : m s₁ = (.written () code, s'))
        (hs : s.memo = s'.memo) : m.FailsAs
          (fun fault M => Hindered ctx M .push levels spelling fault) s₁ :=
      .never h fun M hM fault => not_hindered_of_leaf (hM _ _ (hs ▸ hc)) hv ha ht
    cases c with
    | void => exact .fail fun M hM => ⟨0, spelling, .self, .void (hM _ _ hc)⟩
    | structValue name shape =>
      cases shape with
      | tuple => exact ht hc rfl
      | userdata | byteRange => exact leaf rfl rfl rfl rfl rfl
    | structPointer name shape isConst =>
      refine .afterTemp fun pointer s₁ hs₁ => pushUnlessNull_failsAs ?_
      cases shape with
      | tuple => exact ht (by rwa [hs₁]) rfl
      | userdata | byteRange => cases isConst <;> exact leaf rfl rfl rfl rfl hs₁.symm
    | handle isConst | pointer pointee isConst =>
      exact .afterTemp fun pointer s₁ hs₁ => pushUnlessNull_failsAs
        (leaf rfl rfl rfl rfl hs₁.symm)
    | fixedArray elem size =>
      cases he : elementType? spelling with
      | none =>
        have fails : (Draft.fail (.unsupported .push spelling) : Draft Unit).FailsAs
            (fun fault M => Hindered ctx M .push levels spelling fault) s :=
          .fail fun M hM => ⟨0, spelling, .self, .noDimension (hM _ _ hc) rfl he⟩
        cases rank <;> exact fails
      | some elem =>
        rw [arrayRank_eq he] at hrank
        subst hrank
        refine .afterTemp fun k s₁ hs₁ => .afterLine (.block _ ?_)
        rw [← hs₁] at hc
        have inside : (pushWith ctx tuple (arrayRank elem) elem (.element source k)).FailsAs
            (fun fault M => Hindered ctx M .push levels elem fault) s₁ :=
          ih (arrayRank elem) (Nat.lt_succ_self _) rfl
        have hgrows : (pushWith ctx tuple (arrayRank elem) elem (.element source k)).Grows :=
          pushWith_grows hg _ _ _
        exact .beforeLine (inside.congr hgrows fun M hM fault =>
          (hindered_array_iff (hM _ _ hc) rfl he).symm) hgrows
    | _ => exact leaf rfl rfl rfl rfl rfl

theorem pushMembers_failsAs {levels : Nat} {push : String → Place → Draft Unit}
    (hg : ∀ spelling source, (push spelling source).Grows)
    (hp : ∀ {spelling source s}, (push spelling source).FailsAs
      (fun fault M => Hindered ctx M .push levels spelling fault) s) {value : String} :
    ∀ {members : List TupleMember} {position : Nat} {s : Scratch},
      (pushMembers push value position members).FailsAs (MembersFail ctx .push levels members) s := by
  intro members
  induction members with
  | nil => exact fun {_ _} => .never rfl fun _ _ _ ⟨_, h, _⟩ => absurd h List.not_mem_nil
  | cons member rest ih =>
    intro position s
    have tail := pushMembers_grows hg value rest
    have first {s : Scratch} : (push member.type (.member (.name value) member.field)).FailsAs
        (fun fault M => Hindered ctx M .push levels member.type fault) s := hp
    refine (first.bind
      (Q := MembersFail ctx .push levels rest) (hg _ _)
      (fun _ => (Draft.Grows.line _).bind fun _ => tail _) fun _ _ _ => .afterLine ih).congr
      ((hg _ _).bind fun _ => (Draft.Grows.line _).bind fun _ => tail _) fun M _ fault => ?_
    simp only [MembersFail, List.mem_cons, exists_eq_or_imp]

theorem pushTuple_failsAs :
    ∀ {levels : Nat} {name : String} {source : Place} {spelling : String} {c : Category}
      {s : Scratch}, s.memo.find? spelling = some c → c.tuple? .push = some name →
      (pushTuple ctx levels name source).FailsAs
        (fun fault M => Hindered ctx M .push levels spelling fault) s := by
  intro levels
  induction levels with
  | zero =>
    intro name source spelling c s hc ht
    exact .fail fun M hM => ⟨0, spelling, .self, .tooDeep (hM _ _ hc) ht (Nat.le_refl 0)⟩
  | succ levels ih =>
    intro name source spelling c s hc ht
    unfold pushTuple
    rcases tupleMembers_cases ctx name with ⟨reason, hno, hmembers⟩ | ⟨-, members, hmembers⟩
    · rw [hmembers]
      exact .fail fun M hM => (hindered_tuple_iff (hM _ _ hc) ht).mpr (.inl ⟨reason, hno, rfl⟩)
    · rw [hmembers]
      have hpushes : ∀ rank spelling source,
          (pushWith ctx (pushTuple ctx levels) rank spelling source).Grows :=
        pushWith_grows (pushTuple_grows ctx levels)
      refine .after rfl (.afterTemp fun value s' hs' => .block _ (.afterLines ?_))
      refine (pushMembers_failsAs (fun _ _ => hpushes _ _ _)
        (pushWith_failsAs (pushTuple_grows ctx levels) ih rfl)).congr
        (pushMembers_grows (fun _ _ => hpushes _ _ _) _ _ _) fun M hM fault => ?_
      exact (hindered_members_iff (hM _ _ (by rwa [hs'])) ht hmembers).symm

theorem push_failsAs {spelling : String} {source : Place} {s : Scratch} :
    (push ctx spelling source).FailsAs
      (fun fault M => Hindered ctx M .push maxNesting spelling fault) s :=
  pushWith_failsAs (pushTuple_grows ctx maxNesting) pushTuple_failsAs rfl

end

/-! ## When marshaling fails -/

/-- **Pushing and reading break off exactly where a part of the type is hindered, and with the fault of
such a part.** The parts are those that are reached through elements and members, and in pushing also
through pointers to tuples; what can be wrong with one is said by `Hindrance`. -/
theorem marshaling_fails_iff (ctx : Context) :
    (∀ spelling source s,
      (∀ fault events s', push ctx spelling source s = (.torn fault events, s') →
        Hindered ctx s'.memo .push maxNesting spelling fault) ∧
      (∀ code s', push ctx spelling source s = (.written () code, s') →
        ∀ fault, ¬ Hindered ctx s'.memo .push maxNesting spelling fault)) ∧
    (∀ mode spelling place index s,
      (∀ fault events s', read ctx mode spelling place index s = (.torn fault events, s') →
        Hindered ctx s'.memo .read maxNesting spelling fault) ∧
      (∀ code s', read ctx mode spelling place index s = (.written () code, s') →
        ∀ fault, ¬ Hindered ctx s'.memo .read maxNesting spelling fault)) := by
  have both {action : Action} {m : Draft Unit} {spelling : String} {s : Scratch}
      (h : m.FailsAs (fun fault M => Hindered ctx M action maxNesting spelling fault) s) :
      (∀ fault events s', m s = (.torn fault events, s') →
        Hindered ctx s'.memo action maxNesting spelling fault) ∧
      (∀ code s', m s = (.written () code, s') →
        ∀ fault, ¬ Hindered ctx s'.memo action maxNesting spelling fault) := by
    constructor
    · intro fault events s' hm
      have hfault := h s'.memo (by rw [hm]; exact Memo.Grows.refl _)
      rwa [hm] at hfault
    · intro code s' hm
      have hnone := h s'.memo (by rw [hm]; exact Memo.Grows.refl _)
      rwa [hm] at hnone
  exact ⟨fun _ _ _ => both push_failsAs, fun _ _ _ _ _ => both read_failsAs⟩

/-- Two tuples, of which one has a member without a field, and an alias for an array. -/
def brokenContext : Context :=
  Classifying.fresh (Context.build {} { types := {
    tuples := [("Bad", ["x:int", " :int"]), ("Pair", ["a:int", "b:float[2]"])]
    aliases := [("Vec", "float[3]")] } })

/-- A tuple with an array in it can be pushed, and nothing hinders it; an array of the other tuple
cannot be read, for the fault of its second member. -/
theorem marshaling_fails_pair :
    (∃ code s', push brokenContext "Pair*" (.name "v") {} = (.written () code, s') ∧
      ∀ fault, ¬ Hindered brokenContext s'.memo .push maxNesting "Pair*" fault) ∧
    (∃ events s', read brokenContext .checked "Bad[2]" (.name "v") (.slot 1) {} =
        (.torn (.tuple "Bad" (.emptyMember " :int")) events, s') ∧
      Hindered brokenContext s'.memo .read maxNesting "Bad[2]"
        (.tuple "Bad" (.emptyMember " :int"))) := by
  constructor
  · obtain ⟨_, code, s', h, -⟩ := Draft.exists_written
      (push brokenContext "Pair*" (.name "v")) {} (fun _ => true) (by decide +kernel)
    exact ⟨code, s', h, ((marshaling_fails_iff brokenContext).1 _ _ _).2 code s' h⟩
  · obtain ⟨events, s', h⟩ : ∃ events s',
        read brokenContext .checked "Bad[2]" (.name "v") (.slot 1) {} =
          (.torn (.tuple "Bad" (.emptyMember " :int")) events, s') :=
      Draft.exists_torn _ _ (by decide +kernel)
    exact ⟨events, s', h, ((marshaling_fails_iff brokenContext).2 _ _ _ _ _).1 _ _ _ h⟩

/-- An array behind an alias can be neither pushed nor read, although the alias is the only part of it
there is, and is an array of three numbers. -/
theorem aliased_array_fails :
    (∃ events s', push brokenContext "Vec" (.name "v") {} =
        (.torn (.unsupported .push "Vec") events, s') ∧
      ∀ k part, PartOf brokenContext s'.memo .push k "Vec" part →
        (s'.memo.find? part).map Category.describe = some "[f32; 3]") ∧
    (∀ mode, ∃ events s', read brokenContext mode "Vec" (.name "v") (.slot 1) {} =
        (.torn (.unsupported .read "Vec") events, s') ∧
      ∀ k part, PartOf brokenContext s'.memo .read k "Vec" part →
        (s'.memo.find? part).map Category.describe = some "[f32; 3]") := by
  -- there is no way further into an array that shows no dimension
  have only {M : Memo} {action : Action} {k : Nat} {part : String}
      (hM : (M.find? "Vec").map Category.describe = some "[f32; 3]")
      (ha : (M.find? "Vec").any Category.isArray = true)
      (h : PartOf brokenContext M action k "Vec" part) :
      (M.find? part).map Category.describe = some "[f32; 3]" := by
    obtain ⟨c, hc, ha⟩ := Option.any_eq_true _ _ |>.mp ha
    rcases (PartOf.array_iff hc ha).mp h with ⟨-, rfl⟩ | ⟨elem, he, -⟩
    · exact hM
    · have hnone : elementType? "Vec" = none := by decide +kernel
      rw [hnone] at he
      cases he
  constructor
  · obtain ⟨events, s', h⟩ : ∃ events s', push brokenContext "Vec" (.name "v") {} =
        (.torn (.unsupported .push "Vec") events, s') :=
      Draft.exists_torn _ _ (by decide +kernel)
    have hs' : s' = (push brokenContext "Vec" (.name "v") {}).2 := by rw [h]
    exact ⟨events, s', h, fun k part =>
      only (by rw [hs']; decide +kernel) (by rw [hs']; decide +kernel)⟩
  · intro mode
    obtain ⟨events, s', h⟩ : ∃ events s', read brokenContext mode "Vec" (.name "v") (.slot 1) {} =
        (.torn (.unsupported .read "Vec") events, s') :=
      Draft.exists_torn _ _ (by cases mode <;> decide +kernel)
    have hs' : s' = (read brokenContext mode "Vec" (.name "v") (.slot 1) {}).2 := by rw [h]
    exact ⟨events, s', h, fun k part => only (by rw [hs']; cases mode <;> decide +kernel)
      (by rw [hs']; cases mode <;> decide +kernel)⟩

end LuaGlue
