import LuaGlue.Proofs.Code.Gaps
import LuaGlue.Proofs.Marshal.Parts
import LuaGlue.Proofs.Marshal.PushCode
import LuaGlue.Proofs.Marshal.ReadCode

/-!
# What marshaling marks

A value that cannot cross the boundary leaves a gap, and nothing else does. Whether a type comes to such
a value is a question about its parts (`HasPart Category.isGap`): the elements of its arrays and the
members of its tuples, among them, when it is pushed, those of a tuple behind a pointer. The code that is
written by the rules marks a gap if and only if there is such a part (`Pushes.marks_iff`,
`Reads.marks_iff`), and every part has been classified by then, so that no category is left open.
-/

set_option autoImplicit false

namespace LuaGlue

/-- Whether values of the category cannot cross the boundary. -/
def Category.isGap : Category → Bool
  | .callback .. | .unknown => true
  | _ => false

theorem Category.isGap_iff {c : Category} :
    c.isGap = true ↔ c.isCallback = true ∨ c.isUnknown = true := by
  cases c <;> simp [isGap, isCallback, isUnknown]

section

variable {ctx : Context} {m : Memo}

/-! ## Pushing -/

theorem pushLines?_marks {spelling : String} {source : Place} {c : Category} {ls : List Line}
    (hl : pushLines? spelling source c = some ls) : (Code.ofLines ls).Marks ↔ c.isGap = true := by
  rw [Code.marks_ofLines]
  unfold pushLines? at hl
  split at hl <;> cases hl <;> simp [Event.isPlaceholder, Category.isGap]

theorem not_marks_copyCode (name : String) (source : Place) (copy : String) :
    ¬ (copyCode ctx name source copy).Marks := by
  rw [copyCode, Code.blockOf, Code.marks_block, Code.marks_ofLines]
  simp [Event.isPlaceholder, Code.not_marks_done]

theorem not_marks_pushLight {pointer : String} :
    ¬ (Code.line (pushLight pointer) .done).Marks := by
  simp [Code.marks_line, pushLight, Event.isPlaceholder, Code.not_marks_done]

theorem unlessNullCode_marks {pointer : Local} {source : Expr} {some : Code} :
    (unlessNullCode ctx pointer source some).Marks ↔ some.Marks := by
  simp [unlessNullCode, Code.blockOf, Code.branchOf, pushNil, Code.marks_block, Code.marks_line,
    Code.marks_branch, Event.isPlaceholder, Code.not_marks_done]

theorem arrayCode_marks {k : String} {size : Nat} {inside : Code} :
    (arrayCode k size inside).Marks ↔ inside.Marks := by
  simp [arrayCode, Code.blockOf, Code.marks_block, Code.marks_line, Code.marks_append,
    Event.isPlaceholder, Code.not_marks_done]

theorem tupleCode_marks {name value : String} {source : Place} {size : Nat} {inside : Code} :
    (tupleCode name value source size inside).Marks ↔ inside.Marks := by
  simp [tupleCode, Code.blockOf, Code.marks_block, Code.marks_line, Event.isPlaceholder,
    Code.not_marks_done]

/-- A value without parts and without a gap. -/
theorem not_hasGap_leaf {action : Action} {spelling : String} {c : Category}
    (hc : m.find? spelling = some c) (ha : c.isArray = false) (ht : c.tuple? action = none)
    (hg : c.isGap = false) : ¬ HasPart Category.isGap ctx m action spelling := by
  rw [HasPart.leaf_iff hc ha ht, hg]
  exact Bool.false_ne_true

/-- A tuple's gaps are those of its members. -/
theorem hasGap_tuple_iff {action : Action} {spelling name : String} {c : Category}
    (hc : m.find? spelling = some c) (ht : c.tuple? action = some name)
    {members : List TupleMember} (hm : ctx.tupleMembers name = .ok members) :
    HasPart Category.isGap ctx m action spelling ↔
      ∃ member ∈ members, HasPart Category.isGap ctx m action member.type :=
  HasPart.tuple_iff hc ht (by cases c <;> first | rfl | cases ht) hm

/-- **Code that pushes marks a gap if and only if a part of what is pushed cannot cross the boundary.** -/
theorem Pushes.marks_iff {job : PushJob} {n n' : Nat} {code : Code} (h : Pushes ctx m job n code n') :
    code.Marks ↔ ∃ part, job.Concerns ctx part ∧ HasPart Category.isGap ctx m .push part := by
  induction h with
  | direct hc hl =>
    obtain ⟨ha, ht⟩ := pushLines?_leaf hl
    rw [pushLines?_marks hl, ← HasPart.leaf_iff hc ha ht]
    exact exists_eq_left.symm
  | copy hc hs =>
    refine iff_of_false (not_marks_copyCode _ _ _) ?_
    rintro ⟨_, rfl, hgap⟩
    exact not_hasGap_leaf hc rfl (Category.tuple?_structValue hs) rfl hgap
  | pointerCopy hc hs =>
    rw [unlessNullCode_marks]
    refine iff_of_false (not_marks_copyCode _ _ _) ?_
    rintro ⟨_, rfl, hgap⟩
    exact not_hasGap_leaf hc rfl (Category.tuple?_structPointer hs) rfl hgap
  | pointerLight hc hs =>
    rw [unlessNullCode_marks]
    refine iff_of_false not_marks_pushLight ?_
    rintro ⟨_, rfl, hgap⟩
    exact not_hasGap_leaf hc rfl (Category.tuple?_structPointer hs) rfl hgap
  | @rawPointer _ _ c _ hc hp =>
    rw [unlessNullCode_marks]
    refine iff_of_false not_marks_pushLight ?_
    rintro ⟨_, rfl, hgap⟩
    refine not_hasGap_leaf hc ?_ ?_ ?_ hgap <;> cases c <;> first | rfl | cases hp
  | array hc he _ ih =>
    rw [arrayCode_marks, ih]
    simp only [PushJob.Concerns, exists_eq_left]
    exact (HasPart.array_iff hc rfl rfl he).symm
  | pointerTuple hc inside ih =>
    rw [unlessNullCode_marks, ih]
    cases inside with
    | tuple hm _ =>
      have hgap : HasPart Category.isGap ctx m .push _ ↔ _ := hasGap_tuple_iff hc rfl hm
      simp [PushJob.Concerns, hm, hgap]
  | tupleValue hc inside ih =>
    rw [ih]
    cases inside with
    | tuple hm _ => simp [PushJob.Concerns, hm, hasGap_tuple_iff hc rfl hm]
  | tuple hm _ ih =>
    rw [tupleCode_marks, ih]
    simp [PushJob.Concerns, hm]
  | nil => exact iff_of_false Code.not_marks_done (by simp [PushJob.Concerns])
  | cons _ _ ih ih' =>
    have hstore (position : Nat) : (Event.line (storeAt position)).isPlaceholder = false := rfl
    rw [Code.marks_append, Code.marks_line, ih, ih', hstore]
    simp [PushJob.Concerns]

/-- Whatever is pushed has been classified throughout. -/
theorem Pushes.classified {job : PushJob} {n n' : Nat} {code : Code}
    (h : Pushes ctx m job n code n') : ∀ part, job.Concerns ctx part → Classified ctx m .push part := by
  induction h with
  | direct hc hl =>
    rintro _ rfl
    obtain ⟨ha, ht⟩ := pushLines?_leaf hl
    exact .leaf hc ha ht
  | copy hc hs =>
    rintro _ rfl
    exact .leaf hc rfl (Category.tuple?_structValue hs)
  | pointerCopy hc hs | pointerLight hc hs =>
    rintro _ rfl
    exact .leaf hc rfl (Category.tuple?_structPointer hs)
  | @rawPointer _ _ c _ hc hp =>
    rintro _ rfl
    refine .leaf hc ?_ ?_ <;> cases c <;> first | rfl | cases hp
  | array hc he _ ih =>
    rintro _ rfl
    exact .array hc rfl he (ih _ rfl)
  | pointerTuple hc inside ih | tupleValue hc inside ih =>
    rintro _ rfl
    cases inside with
    | tuple hm _ => exact .tuple hc rfl hm fun member hmem => ih _ ⟨_, hm, member, hmem, rfl⟩
  | tuple hm _ ih =>
    rintro _ ⟨members, hm', hmem⟩
    rw [hm] at hm'
    cases hm'
    exact ih _ hmem
  | nil =>
    rintro _ ⟨_, hmem, -⟩
    cases hmem
  | cons _ _ ih ih' =>
    rintro _ ⟨member, hmem, rfl⟩
    cases hmem with
    | head => exact ih _ rfl
    | tail _ hrest => exact ih' _ ⟨member, hrest, rfl⟩

/-! ## Reading -/

section

variable {mode : ReadMode} {spelling : String} {place : Place} {index : StackIndex}

theorem readLine?_marks {c : Category} {l : Line}
    (hl : readLine? ctx mode spelling place index c = some l) :
    (Code.line l .done).Marks ↔ c.isGap = true := by
  have hline : (Event.line l).isPlaceholder = c.isGap := by
    unfold readLine? at hl
    split at hl <;> cases hl
    iterate 5 rfl
    · split <;> rfl
    iterate 4 rfl
  rw [Code.marks_line, hline]
  simp [Code.not_marks_done]

theorem not_marks_readBound {name : String} :
    ¬ (Code.line (readBound ctx name place index mode) .done).Marks := by
  rw [Code.marks_line]
  cases mode <;> simp [readBound, Event.isPlaceholder, Code.not_marks_done]

theorem not_marks_copyUserdata {name pointer : String} :
    ¬ (Code.ofLines (copyUserdata ctx name place index mode pointer)).Marks := by
  simp [copyUserdata, Code.marks_ofLines, Event.isPlaceholder]

theorem not_marks_rangeCode {name : String} {range : ByteRange} {pointer length : String} :
    ¬ (rangeCode ctx name range place index mode pointer length).Marks := by
  have hbytes : ¬ (Code.ofLines [.declare (.plain "size_t" length) (.text "0"),
       .assign (.memberOf place range.pointer)
        (.call (Api.tolstring.on [.at index, .address length])),
       .assign (.memberOf place range.size) (.value (.name length))]).Marks := by
    simp [Code.marks_ofLines, Event.isPlaceholder]
  simp [rangeCode, Code.blockOf, Code.branchOf, Code.marks_block, Code.marks_branch, hbytes,
    not_marks_copyUserdata, Code.not_marks_done]

theorem tableCode_marks {table : String} {inside : Code} :
    (tableCode mode table index inside).Marks ↔ inside.Marks := by
  cases mode <;>
    simp [tableCode, Code.blockOf, Code.branchOf, Code.marks_block, Code.marks_branch,
      Code.marks_line, Event.isPlaceholder, Code.not_marks_done]

theorem elementsCode_marks {table k : String} {size : Nat} {inside : Code} :
    (elementsCode table k size inside).Marks ↔ inside.Marks := by
  simp [elementsCode, Code.blockOf, Code.marks_block, Code.marks_branch, Code.marks_line, popOne,
    Event.isPlaceholder, Code.not_marks_done]

theorem memberCode_marks {table : String} {position : Nat} {inside : Code} :
    (memberCode table position inside).Marks ↔ inside.Marks := by
  simp [memberCode, Code.marks_append, Code.marks_line, popOne, Event.isPlaceholder,
    Code.not_marks_done]

end

/-- **Code that reads marks a gap if and only if a part of what is read cannot cross the boundary.** -/
theorem Reads.marks_iff {job : ReadJob} {n n' : Nat} {code : Code} (h : Reads ctx m job n code n') :
    code.Marks ↔ ∃ part, job.Concerns ctx part ∧ HasPart Category.isGap ctx m .read part := by
  induction h with
  | oneLine hc hl =>
    obtain ⟨ha, ht⟩ := readLine?_leaf hl
    rw [readLine?_marks hl, ← HasPart.leaf_iff hc ha ht]
    exact exists_eq_left.symm
  | bound hc hs _ =>
    refine iff_of_false not_marks_readBound ?_
    rintro ⟨_, rfl, hgap⟩
    exact not_hasGap_leaf hc rfl (Category.tuple?_structValue hs) rfl hgap
  | foreign hc hs _ _ =>
    refine iff_of_false ?_ ?_
    · simp [Code.blockOf, Code.marks_block, not_marks_copyUserdata, Code.not_marks_done]
    · rintro ⟨_, rfl, hgap⟩
      exact not_hasGap_leaf hc rfl (Category.tuple?_structValue hs) rfl hgap
  | foreignRange hc hs _ _ =>
    refine iff_of_false not_marks_rangeCode ?_
    rintro ⟨_, rfl, hgap⟩
    exact not_hasGap_leaf hc rfl (Category.tuple?_structValue hs) rfl hgap
  | array hc he _ ih =>
    rw [tableCode_marks, elementsCode_marks, ih]
    simp only [ReadJob.Concerns, exists_eq_left]
    exact (HasPart.array_iff hc rfl rfl he).symm
  | tupleValue hc inside ih =>
    rw [ih]
    cases inside with
    | tuple hm _ => simp [ReadJob.Concerns, hm, hasGap_tuple_iff hc rfl hm]
  | tuple hm _ ih =>
    rw [tableCode_marks, ih]
    simp [ReadJob.Concerns, hm]
  | nil => exact iff_of_false Code.not_marks_done (by simp [ReadJob.Concerns])
  | cons _ _ ih ih' =>
    rw [Code.marks_append, memberCode_marks, ih, ih']
    simp [ReadJob.Concerns]

/-- Whatever is read has been classified throughout. -/
theorem Reads.classified {job : ReadJob} {n n' : Nat} {code : Code}
    (h : Reads ctx m job n code n') : ∀ part, job.Concerns ctx part → Classified ctx m .read part := by
  induction h with
  | oneLine hc hl =>
    rintro _ rfl
    obtain ⟨ha, ht⟩ := readLine?_leaf hl
    exact .leaf hc ha ht
  | bound hc hs _ | foreign hc hs _ _ | foreignRange hc hs _ _ =>
    rintro _ rfl
    exact .leaf hc rfl (Category.tuple?_structValue hs)
  | array hc he _ ih =>
    rintro _ rfl
    exact .array hc rfl he (ih _ rfl)
  | tupleValue hc inside ih =>
    rintro _ rfl
    cases inside with
    | tuple hm _ => exact .tuple hc rfl hm fun member hmem => ih _ ⟨_, hm, member, hmem, rfl⟩
  | tuple hm _ ih =>
    rintro _ ⟨members, hm', hmem⟩
    rw [hm] at hm'
    cases hm'
    exact ih _ hmem
  | nil =>
    rintro _ ⟨_, hmem, -⟩
    cases hmem
  | cons _ _ ih ih' =>
    rintro _ ⟨member, hmem, rfl⟩
    cases hmem with
    | head => exact ih _ rfl
    | tail _ hrest => exact ih' _ ⟨member, hrest, rfl⟩

end

end LuaGlue
